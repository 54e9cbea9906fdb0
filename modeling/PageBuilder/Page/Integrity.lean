import PageBuilder.Page.Basic
import PageBuilder.Page.Attributes

/-!
# Checking the structure of a page

`Page.problems` finds every violated rule: one root without a parent, every listed child stored
and pointing back, every element reachable from the root exactly once, children only where the
catalog allows them, style attributes of known categories, and, if asked for, known kinds.

The survey keeps a stack of ids and a list of those it has seen.  Each element is looked into once
only, so the survey ends on every page, cyclic ones included.
-/

namespace PageBuilder.Page

/-- The number of children listed by elements not seen yet. -/
def openLinksIn (seen : List String) : List (String × Element) → Nat
  | [] => 0
  | (id, e) :: rest => (if id ∈ seen then 0 else e.children.length) + openLinksIn seen rest

theorem openLinksIn_cons_le (id : String) (seen : List String) (es : List (String × Element)) :
    openLinksIn (id :: seen) es ≤ openLinksIn seen es := by
  induction es with
  | nil => exact Nat.le_refl _
  | cons x rest ih =>
    obtain ⟨k, e⟩ := x
    simp only [openLinksIn]
    by_cases h : k ∈ seen
    · simpa [h] using ih
    · by_cases hk : k = id <;> simp [h, hk] <;> omega

theorem openLinksIn_cons_add_le {id : String} {e : Element} {seen : List String}
    {es : List (String × Element)} (hm : (id, e) ∈ es) (hs : id ∉ seen) :
    openLinksIn (id :: seen) es + e.children.length ≤ openLinksIn seen es := by
  induction es with
  | nil => simp at hm
  | cons x rest ih =>
    obtain ⟨k, f⟩ := x
    simp only [openLinksIn]
    rcases List.mem_cons.1 hm with hx | hr
    · cases hx
      have := openLinksIn_cons_le id seen rest
      simp [hs]
      omega
    · have := ih hr
      by_cases h : k ∈ seen
      · simp [h]; omega
      · by_cases hk : k = id <;> simp [h, hk] <;> omega

/-- The number of children of a page listed by elements not seen yet. -/
def openLinks (page : Page) (seen : List String) : Nat :=
  openLinksIn seen page.elements.entries

def kindProblems (catalog : Catalog) (checkKinds : Bool) (id : String) (e : Element) :
    List Problem :=
  if !catalog.contains e.kind then (if checkKinds then [.unknownKind id e.kind] else [])
  else if !e.children.isEmpty && !catalog.isContainer e.kind then [.closedParent id e.kind]
  else []

def styleProblems (id : String) (e : Element) : List Problem :=
  (e.style.keys.filter fun category => !Style.isKnown category).map (.unknownStyle id)

def childProblems (page : Page) (id : String) (e : Element) : List Problem :=
  e.children.flatMap fun child =>
    match page.get? child with
    | none => [.missingChild id child]
    | some c => if c.parent = some id then [] else [.wrongParent child c.parent id]

/-- Problems of an element and its links to its children. -/
def problemsAt (page : Page) (catalog : Catalog) (checkKinds : Bool) (id : String)
    (e : Element) : List Problem :=
  kindProblems catalog checkKinds id e ++ styleProblems id e ++ page.childProblems id e

/-- What a survey found: problems in order, and the ids seen. -/
structure Survey where
  problems : List Problem
  seen : List String
deriving DecidableEq, Repr

/-- Looks into the elements on a stack and all below them; the last child listed is looked into
first.  Only ids of stored elements are put on the stack. -/
def survey (page : Page) (catalog : Catalog) (checkKinds : Bool) (seen : List String) :
    List String → Survey
  | [] => ⟨[], seen⟩
  | id :: stack =>
    if _hs : id ∈ seen then
      let rest := page.survey catalog checkKinds seen stack
      ⟨.repeated id :: rest.problems, rest.seen⟩
    else
      match _h : page.get? id with
      | none => page.survey catalog checkKinds seen stack
      | some e =>
        let rest := page.survey catalog checkKinds (id :: seen)
          ((e.children.filter page.contains).reverse ++ stack)
        ⟨page.problemsAt catalog checkKinds id e ++ rest.problems, rest.seen⟩
termination_by stack => page.openLinks seen + stack.length
decreasing_by
  · simp
  · simp
  · have h1 := openLinksIn_cons_add_le (mem_of_lookup _h) _hs
    have h2 := List.length_filter_le page.contains e.children
    simp only [openLinks, List.length_append, List.length_reverse, List.length_cons]
    omega

/-- The problems of a page, elements in the order of the survey, then those it did not reach in
increasing order. -/
def problems (page : Page) (catalog : Catalog) (checkKinds : Bool) : List Problem :=
  match page.root with
  | none => if page.elements.isEmpty then [] else [.rootless]
  | some root =>
    match page.get? root with
    | none => [.rootMissing root]
    | some e =>
      let found := page.survey catalog checkKinds [] [root]
      let orphans := (page.elements.keys.filter fun id => !found.seen.contains id).mergeSort
      (e.parent.toList.map (.rootHasParent root)) ++ found.problems ++ orphans.map .unreachable

end PageBuilder.Page
