import PageBuilder.Markup.Attribute
import PageBuilder.Page.Walk

/-!
# Markup lines

The markup of a page has one line for each opening tag and one for each closing tag; an element
without children is one self-closing tag.  Lines are indented by their depth.

The components of all elements are looked up first, so that an unknown kind is found before
anything is written.
-/

namespace PageBuilder.Markup

/-- The components of the kinds met on a walk from an element, in the order they are met; an
unknown kind is reported with the first element of that kind. -/
def componentsFrom (catalog : Catalog) (page : Page) (start : String) :
    Except Failure (OrderedMap Component) :=
  page.walkFrom
    (fun found e =>
      if found.contains e.kind then .ok found
      else found.insert e.kind <$> catalog.require e.kind (some e.id))
    .empty start

def components (catalog : Catalog) (page : Page) : Except Failure (OrderedMap Component) :=
  match page.root with
  | none => .ok .empty
  | some root => componentsFrom catalog page root

def pad (unit : String) : Nat → String
  | 0 => ""
  | depth + 1 => unit ++ pad unit depth

/-- What is left to write: an element and all below it, which may hang a number of generations
deep, or the closing tag of an element. -/
inductive Task
  | open (id : String) (depth generations : Nat)
  | close (tag : String) (depth : Nat)
deriving DecidableEq, Repr

/-- A bound on the lines a task can lead to. -/
def taskWeight (page : Page) : Task → Nat
  | .open _ _ generations => page.reach generations
  | .close _ _ => 1

/-- A bound on the lines an agenda can lead to. -/
def agendaWeight (page : Page) : List Task → Nat
  | [] => 0
  | task :: rest => taskWeight page task + agendaWeight page rest

theorem agendaWeight_children (page : Page) (children : List String) (depth n : Nat)
    (rest : List Task) :
    agendaWeight page ((children.map fun c => .open c depth n) ++ rest) =
      children.length * page.reach n + agendaWeight page rest := by
  induction children with
  | nil => simp
  | cons c cs ih =>
    simp only [agendaWeight, List.map_cons, List.cons_append, List.length_cons, Nat.succ_mul,
      taskWeight, ih]
    omega

theorem agendaWeight_open {page : Page} {id : String} {e : Element} (h : page.get? id = some e)
    (tag : String) (depth n : Nat) (rest : List Task) :
    agendaWeight page
        ((e.children.map fun c => .open c (depth + 1) n) ++ .close tag depth :: rest) <
      agendaWeight page (.open id depth (n + 1) :: rest) := by
  rw [agendaWeight_children]
  have hp := page.reach_pos n
  have hr := Page.children_reach_lt h n
  simp only [agendaWeight, taskWeight]
  omega

/-- The lines of an agenda. -/
def lines (page : Page) (known : OrderedMap Component) (unit : String) :
    List Task → Except Failure (List String)
  | [] => .ok []
  | .close tag depth :: rest =>
    ((pad unit depth ++ "</" ++ tag ++ ">") :: ·) <$> lines page known unit rest
  | .open _ _ 0 :: _ => .error .endless
  | .open id depth (n + 1) :: rest =>
    match _h : page.get? id with
    | none => .error (.missingElement id)
    | some e =>
      match known.get? e.kind with
      | none => .error (.missingElement e.kind)
      | some component =>
        match opening component e with
        | .error fault => .error (.noText fault)
        | .ok tag =>
          if e.children.isEmpty then
            ((pad unit depth ++ "<" ++ tag ++ " />") :: ·) <$> lines page known unit rest
          else
            ((pad unit depth ++ "<" ++ tag ++ ">") :: ·) <$>
              lines page known unit
                ((e.children.map fun c => .open c (depth + 1) n) ++
                  .close component.tag depth :: rest)
termination_by agenda => agendaWeight page agenda
decreasing_by
  · simp [agendaWeight, taskWeight]
  · simp only [agendaWeight, taskWeight]
    exact Nat.lt_add_of_pos_left (page.reach_pos (n + 1))
  · exact agendaWeight_open _h component.tag depth n rest

/-- The lines of the markup of an element and all below it, from a depth on. -/
def linesFrom (page : Page) (known : OrderedMap Component) (unit : String) (depth : Nat)
    (start : String) : Except Failure (List String) :=
  lines page known unit [.open start depth page.generations]

end PageBuilder.Markup
