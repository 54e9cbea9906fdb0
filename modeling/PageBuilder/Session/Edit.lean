import PageBuilder.Session.Basic

/-!
# Edits in a session

Each of these operations is one edit of the draft followed by one change of the session, which
commits it.  What was inserted last is selected.
-/

namespace PageBuilder.Session

def insert (parent : Option String) (kind : String) (index : Option Int)
    (props style : OrderedMap Value) : Action String := do
  let id ← onDraft (Draft.insert parent kind index props style)
  settle [id]
  return id

def move (id target : String) (index : Option Int) : Action Unit := do
  onDraft (Draft.move id target index)
  settle (← get).selection

def updateProps (id : String) (props : OrderedMap Value) : Action Unit := do
  onDraft (Draft.updateProps id props)
  settle (← get).selection

def updateStyle (id : String) (style : OrderedMap Value) : Action Unit := do
  onDraft (Draft.updateStyle id style)
  settle (← get).selection

/-- Removes an element and all below it, from the selection too. -/
def remove (id : String) : Action (List String) := do
  let removed ← onDraft (Draft.remove id)
  settle ((← get).selection.filter fun selected => !removed.contains selected)
  return removed

/-- Removes every element; an empty page stays as it is and nothing is committed. -/
def clear : Action Unit := do
  if (← get).draft.page.isEmpty then return
  discard (onDraft Draft.clear)
  settle []

/-- The copy a duplication attaches: under which parent, which elements, at which position. -/
structure Duplicate where
  parent : String
  nodes : List Element
  index : Nat
deriving DecidableEq, Repr

def planDuplicate (draft : Draft) (id : String) : Except Failure Duplicate := do
  match ← draft.page.parentOf id with
  | none => throw (.rejected .rootUnique)
  | some parent =>
    let nodes ← draft.copy id
    match parent.children.idxOf? id with
    | none => throw (.noPlace id)
    | some index => return ⟨parent.id, nodes, index + 1⟩

/-- Puts a copy of an element and all below it right after it, and selects the copy. -/
def duplicate (id : String) : Action String := do
  let plan ← lift (planDuplicate (← get).draft id)
  let new ← onDraft (Draft.attach (some plan.parent) plan.nodes (some plan.index))
  settle [new]
  return new

/-- Keeps a copy of an element and all below it on the clipboard. -/
def copy (id : String) : Action Unit := do
  let nodes ← lift ((← get).draft.copy id)
  modify fun s => { s with clipboard := some nodes }

/-- Puts a copy of what is on the clipboard under a parent, by default the root, and selects it;
on an empty page it becomes the root.  Nothing happens when the clipboard is empty. -/
def paste (parent : Option String) (index : Option Int) : Action (Option String) := do
  let s ← get
  match s.clipboard with
  | none => return none
  | some nodes =>
    let new ← onDraft (Draft.attach (parent.or s.draft.page.root) nodes index)
    settle [new]
    return some new

/-! ## Loading -/

/-- The refused props of elements in order, the first of each, with the id of its element. -/
def propFaults (elements : List Element) : List (String × PropFault) :=
  elements.filterMap fun e =>
    match Props.check e.props with
    | .ok () => none
    | .error fault => some (e.id, fault)

/-- The checks of a snapshot that is to be loaded: it is a tree, and its props are ones a page can
have.  Kinds that the catalog does not have are let pass.  A refused prop that cannot be put in
words ends the checks. -/
def checkLoad (catalog : Catalog) (snapshot : Snapshot) : Except Failure Unit := do
  let draft ← Draft.ofPage catalog {} snapshot.page
  let problems := draft.page.problems draft.catalog false
  let props := propFaults snapshot.page.elements.values
  match props.findSome? fun p => p.2.textFault? with
  | some fault => throw (.noText fault)
  | none =>
    match problems, props with
    | [], [] => return ()
    | problems, props => throw (.rejected (.document (.inconsistent problems props)))

/-- Makes a snapshot the page being edited, as one change that can be undone. -/
def load (snapshot : Snapshot) : Action Unit := do
  lift (checkLoad (← get).draft.catalog snapshot)
  restore snapshot
  modify changed

end PageBuilder.Session
