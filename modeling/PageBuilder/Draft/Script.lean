import PageBuilder.Draft.Copy
import PageBuilder.Page.Integrity

/-!
# Edits and questions as data

An `Edit` is an edit of a draft before it is carried out, so that whole sequences of edits can be
run and spoken about.  A `Query` is a question about the page of a draft; it changes nothing.
-/

namespace PageBuilder.Draft

/-! ## Edits -/

inductive Edit
  | insert (parent : Option String) (kind : String) (index : Option Int)
      (props style : OrderedMap Value)
  | move (id target : String) (index : Option Int)
  | updateProps (id : String) (props : OrderedMap Value)
  | updateStyle (id : String) (style : OrderedMap Value)
  | remove (id : String)
  | clear
  | attach (parent : Option String) (nodes : List Element) (index : Option Int)
deriving DecidableEq, Repr

inductive Effect
  | changed
  /-- The id of the element inserted, or of the first of those attached. -/
  | added (id : String)
  | removed (ids : List String)
deriving DecidableEq, Repr

def Edit.run : Edit → Action Effect
  | .insert parent kind index props style =>
    .added <$> Draft.insert parent kind index props style
  | .move id target index => (fun _ => .changed) <$> Draft.move id target index
  | .updateProps id props => (fun _ => .changed) <$> Draft.updateProps id props
  | .updateStyle id style => (fun _ => .changed) <$> Draft.updateStyle id style
  | .remove id => .removed <$> Draft.remove id
  | .clear => .removed <$> Draft.clear
  | .attach parent nodes index => .added <$> Draft.attach parent nodes index

/-- The draft after an edit, whether it was carried out or rejected. -/
def Edit.after (edit : Edit) (draft : Draft) : Draft :=
  match edit.run draft with
  | .ok _ draft => draft
  | .error _ draft => draft

/-- The draft after edits in order; rejected ones are passed over. -/
def runAll (draft : Draft) (edits : List Edit) : Draft :=
  edits.foldl (fun draft edit => edit.after draft) draft

/-! ## Questions -/

inductive Query
  | element (id : String)
  | parentOf (id : String)
  | ancestors (id : String)
  | descendants (id : String)
  | depth (id : String)
  /-- The ids from an element on, or from the root on. -/
  | walk (start : Option String)
  | size
  | contains (id : String)
  /-- The rules of structure that are violated, unknown kinds included or not. -/
  | problems (checkKinds : Bool)
deriving DecidableEq, Repr

inductive Finding
  | element (e : Option Element)
  | id (id : Option String)
  | ids (ids : List String)
  | count (n : Nat)
  | size (n : Nat) (isEmpty : Bool)
  | truth (b : Bool)
  | problems (problems : List Problem)
deriving DecidableEq, Repr

def answer (draft : Draft) : Query → Except Failure Finding
  | .element id => .ok (.element (draft.page.get? id))
  | .parentOf id => (fun e => .id (e.map Element.id)) <$> draft.page.parentOf id
  | .ancestors id => .ids <$> draft.page.ancestors id
  | .descendants id => .ids <$> draft.page.descendants id
  | .depth id => .count <$> draft.page.depth id
  | .walk start => (fun es => .ids (es.map Element.id)) <$> draft.page.traverse start
  | .size => .ok (.size draft.page.size draft.page.isEmpty)
  | .contains id => .ok (.truth (draft.page.contains id))
  | .problems checkKinds => .ok (.problems (draft.page.problems draft.catalog checkKinds))

end PageBuilder.Draft
