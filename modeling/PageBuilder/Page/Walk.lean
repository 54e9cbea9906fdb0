import PageBuilder.Page.Basic

/-!
# Walks over a page

A walk visits elements in document order: an element, then what hangs below its first child, and
so on.  It keeps an agenda of ids to visit, each with the number of generations that may still
hang below it.  In a tree no path is longer than the number of elements, so an id whose
generations are used up lies on a cycle, and the walk would never end.
-/

namespace PageBuilder.Page

/-- The greatest number of children an element of the page has. -/
def widest (page : Page) : Nat :=
  page.elements.entries.foldr (fun e w => max e.2.children.length w) 0

theorem length_children_le_widest {page : Page} {id : String} {e : Element}
    (h : page.get? id = some e) : e.children.length ≤ page.widest := by
  have hm : (id, e) ∈ page.elements.entries := mem_of_lookup h
  unfold widest
  revert hm
  generalize page.elements.entries = es
  intro hm
  induction es with
  | nil => simp at hm
  | cons x rest ih =>
    rw [List.foldr_cons]
    rcases List.mem_cons.1 hm with hx | hr
    · subst hx; exact Nat.le_max_left _ _
    · exact Nat.le_trans (ih hr) (Nat.le_max_right _ _)

/-- An upper bound on the visits an id with some generations left can lead to. -/
def reach (page : Page) : Nat → Nat
  | 0 => 1
  | n + 1 => (page.widest + 2) * page.reach n

theorem reach_pos (page : Page) (n : Nat) : 0 < page.reach n := by
  induction n with
  | zero => exact Nat.one_pos
  | succ n ih => exact Nat.mul_pos (by omega) ih

/-- What hangs below an element is reached in fewer visits than the element itself. -/
theorem children_reach_lt {page : Page} {id : String} {e : Element} (h : page.get? id = some e)
    (n : Nat) : e.children.length * page.reach n + page.reach n < page.reach (n + 1) := by
  have hp := page.reach_pos n
  have hm := Nat.mul_le_mul_right (page.reach n) (length_children_le_widest h)
  simp only [reach, Nat.add_mul]
  omega

/-- An upper bound on the visits an agenda can lead to. -/
def weight (page : Page) : List (String × Nat) → Nat
  | [] => 0
  | task :: rest => page.reach task.2 + page.weight rest

theorem weight_children (page : Page) (children : List String) (n : Nat)
    (rest : List (String × Nat)) :
    page.weight (children.map (·, n) ++ rest) =
      children.length * page.reach n + page.weight rest := by
  induction children with
  | nil => simp
  | cons c cs ih =>
    simp only [weight, List.map_cons, List.cons_append, List.length_cons, Nat.succ_mul, ih]
    omega

theorem weight_visit {page : Page} {id : String} {e : Element} (h : page.get? id = some e)
    (n : Nat) (rest : List (String × Nat)) :
    page.weight (e.children.map (·, n) ++ rest) < page.weight ((id, n + 1) :: rest) := by
  rw [weight_children]
  have hr := children_reach_lt h n
  simp only [weight]
  omega

/-- Visits the elements of an agenda and all below them, in document order. -/
def walk {σ : Type} (page : Page) (visit : σ → Element → Except Failure σ) :
    σ → List (String × Nat) → Except Failure σ
  | state, [] => .ok state
  | _, (_, 0) :: _ => .error .endless
  | state, (id, n + 1) :: rest =>
    match _h : page.get? id with
    | none => .error (.missingElement id)
    | some e =>
      match visit state e with
      | .error failure => .error failure
      | .ok state => page.walk visit state (e.children.map (·, n) ++ rest)
termination_by _ agenda => page.weight agenda
decreasing_by exact weight_visit _h n rest

/-- The generations a walk allows. -/
def generations (page : Page) : Nat :=
  page.size + 1

/-- Visits an element and all below it. -/
def walkFrom {σ : Type} (page : Page) (visit : σ → Element → Except Failure σ) (state : σ)
    (start : String) : Except Failure σ :=
  page.walk visit state [(start, page.generations)]

/-- The elements from one on, in document order; from the root when none is named. -/
def traverse (page : Page) (start : Option String) : Except Failure (List Element) :=
  match start.or page.root with
  | none => .ok []
  | some id => List.reverse <$> page.walkFrom (fun seen e => .ok (e :: seen)) [] id

/-- The ids below an element in document order. -/
def descendants (page : Page) (id : String) : Except Failure (List String) :=
  (fun es => (es.map Element.id).drop 1) <$> page.traverse (some id)

/-- The parent, its parent and so on, for at most `n` steps. -/
def ancestorsWithin (page : Page) : Nat → String → Except Failure (List String)
  | 0, _ => .error .endless
  | n + 1, id =>
    match (page.get? id).bind Element.parent with
    | none => .ok []
    | some parent => (parent :: ·) <$> page.ancestorsWithin n parent

/-- The parent, its parent and so on up to the root; none for an unknown id. -/
def ancestors (page : Page) (id : String) : Except Failure (List String) :=
  page.ancestorsWithin page.generations id

def depth (page : Page) (id : String) : Except Failure Nat :=
  List.length <$> page.ancestors id

end PageBuilder.Page
