import PageBuilder.Draft.Basic

/-!
# Edits of a draft

Each edit first checks everything that can be wrong with its arguments and then changes the page,
so that a rejected edit leaves the draft as it was.  On a page that is a tree the changes cannot
fail; on one that never passed the checks `remove` can, when it meets an element stored under an
id that is not its own.
-/

namespace PageBuilder.Draft

/-! ## Insertion -/

/-- The checks of an insertion, and the new element but for its id, which is there to be drawn. -/
def planInsert (draft : Draft) (parent : Option String) (kind : String)
    (props style : OrderedMap Value) : Except Failure Element := do
  let component ← draft.catalog.require kind none
  draft.checkHost parent
  checkProps props
  let style ← checkStyle style
  if (draft.ids.exhausted? 1).isSome then throw (.noText .longInteger)
  return ⟨"", kind, overlay component.props props, overlay component.style style, [], parent⟩

/-- Stores an element under the next id and hangs it under its parent. -/
def place (draft : Draft) (e : Element) (index : Option Int) : String × Draft :=
  let (id, ids) := draft.ids.draw
  let page := (hang draft.page e.parent index id).put { e with id := id }
  (id, { draft with ids := ids, page := page })

/-- Inserts a new element of a kind under a parent, or as the root of an empty page.  It starts
with the defaults of its kind, overlaid by the given props and style attributes. -/
def insert (parent : Option String) (kind : String) (index : Option Int)
    (props style : OrderedMap Value) : Action String := fun draft =>
  match draft.planInsert parent kind props style with
  | .error failure => .error failure draft
  | .ok e =>
    let (id, draft) := draft.place e index
    .ok id draft

/-! ## Moving -/

/-- The checks of a move, and the id of the parent the element leaves. -/
def planMove (draft : Draft) (id target : String) : Except Failure String := do
  let e ← draft.page.require id
  if draft.page.root = some id then throw (.rejected .rootFixed)
  match draft.page.get? target with
  | none => throw (.rejected (.targetMissing target))
  | some host =>
    if target = id then throw (.rejected (.targetInside target id))
    let above ← draft.page.ancestors target
    if id ∈ above then throw (.rejected (.targetInside target id))
    if !draft.catalog.isContainer host.kind then
      throw (.rejected (.targetClosed target host.kind))
    let (old, parent) ← draft.page.fetchParent e
    if id ∉ parent.children then throw .notAmongChildren
    return old

/-- Takes an element out of one list of children and puts it into another. -/
def rehang (page : Page) (id old target : String) (index : Option Int) : Page :=
  ((page.dropChild old id).addChild target index id).modify id fun e =>
    { e with parent := some target }

/-- Moves an element with all below it.  The position counts the target's children without the
element itself, so moving within one parent works as moving between two. -/
def move (id target : String) (index : Option Int) : Action Unit := fun draft =>
  match draft.planMove id target with
  | .error failure => .error failure draft
  | .ok old => .ok () { draft with page := rehang draft.page id old target index }

/-! ## Props and style -/

/-- Overlays the props of an element by a partial update; null removes a prop. -/
def updateProps (id : String) (props : OrderedMap Value) : Action Unit := fun draft =>
  match draft.page.require id with
  | .error failure => .error failure draft
  | .ok _ =>
    match checkProps props with
    | .error failure => .error failure draft
    | .ok () =>
      .ok () { draft with
        page := draft.page.modify id fun e => { e with props := overlay e.props props } }

/-- Overlays the style of an element by a partial update; null removes a category. -/
def updateStyle (id : String) (style : OrderedMap Value) : Action Unit := fun draft =>
  match draft.page.require id with
  | .error failure => .error failure draft
  | .ok _ =>
    match checkStyle style with
    | .error failure => .error failure draft
    | .ok style =>
      .ok () { draft with
        page := draft.page.modify id fun e => { e with style := overlay e.style style } }

/-! ## Removal -/

/-- What a removal takes away. -/
structure Removal where
  /-- The element and all below it, each once. -/
  ids : List String
  /-- The parent that lists the element. -/
  parent : String
deriving DecidableEq, Repr

def planRemove (draft : Draft) (id : String) : Except Failure Removal := do
  let e ← draft.page.require id
  if draft.page.root = some id then throw (.rejected (.rootKept id))
  let below ← draft.page.descendants id
  let (old, parent) ← draft.page.fetchParent e
  if id ∉ parent.children then throw .notAmongChildren
  return ⟨(id :: below).eraseDups, old⟩

/-- Deletes elements one after the other, up to the first that is not there. -/
def deleteAll : List String → Action Unit
  | [], draft => .ok () draft
  | id :: rest, draft =>
    if draft.page.contains id then deleteAll rest { draft with page := draft.page.delete id }
    else .error (.missingElement id) draft

/-- Removes an element and all below it, and gives their ids. -/
def remove (id : String) : Action (List String) := fun draft =>
  match draft.planRemove id with
  | .error failure => .error failure draft
  | .ok removal =>
    match deleteAll removal.ids { draft with page := draft.page.dropChild removal.parent id } with
    | .error failure draft => .error failure draft
    | .ok () draft => .ok removal.ids draft

/-- Removes every element, the root included, and gives their ids. -/
def clear : Action (List String) := fun draft =>
  .ok draft.page.elements.keys { draft with page := {} }

end PageBuilder.Draft
