import PageBuilder.Draft.Edit

/-!
# Copies of subtrees

`copy` takes a subtree out as a list of elements in document order, with their ids and without a
parent for the first.  `attach` puts such a list into a draft under fresh ids; links between the
copied elements are carried over to the new ids.
-/

namespace PageBuilder.Draft

/-- A copy of an element and all below it. -/
def copy (draft : Draft) (id : String) : Except Failure (List Element) := do
  let _ ← draft.page.require id
  match ← draft.page.traverse (some id) with
  | [] => return []
  | e :: rest => return { e with parent := none } :: rest

/-- Checks one copied element, given the ids of all of them. -/
def checkCopied (draft : Draft) (ids : List String) (node : Element) : Except Failure Unit := do
  let _ ← draft.catalog.require node.kind (some node.id)
  if !node.children.isEmpty && !draft.catalog.isContainer node.kind then
    throw (.rejected (.closedCopy node.id node.kind))
  if node.children.any fun child => !ids.contains child then
    throw (.rejected (.strayChildren node.id))
  discard (checkStyle node.style)

def checkAllCopied (draft : Draft) (ids : List String) : List Element → Except Failure Unit
  | [] => .ok ()
  | node :: rest =>
    match draft.checkCopied ids node with
    | .error failure => .error failure
    | .ok () => checkAllCopied draft ids rest

def planAttach (draft : Draft) (parent : Option String) (nodes : List Element) :
    Except Failure Unit :=
  if nodes.isEmpty then .error (.rejected .nothingToAttach)
  else
    match draft.checkAllCopied (nodes.map Element.id) nodes with
    | .error failure => .error failure
    | .ok () => draft.checkHost parent

/-- New ids by old ones. -/
def newNames (nodes : List Element) (ids : List String) : OrderedMap String :=
  .ofList ((nodes.map Element.id).zip ids)

/-- A copied element under its new id: its children carry theirs, and its parent is the copied
one's if that was copied too, else the element the copy is hung under. -/
def renamed (names : OrderedMap String) (parent : Option String) (node : Element) : Element :=
  { node with
    id := (names.get? node.id).getD node.id
    children := node.children.filterMap names.get?
    parent := (node.parent.bind names.get?).or parent }

/-- Stores copied elements under fresh ids and hangs the first one. -/
def placeCopy (draft : Draft) (parent : Option String) (nodes : List Element)
    (index : Option Int) : String × Draft :=
  let (ids, source) := IdSource.drawMany nodes.length draft.ids
  let names := newNames nodes ids
  let top := ((nodes.head?.map Element.id).bind names.get?).getD ""
  let page := (nodes.map (renamed names parent)).foldl Page.put (hang draft.page parent index top)
  (top, { draft with ids := source, page := page })

/-- Puts a copy into the draft, under a parent or as the root of an empty page, and gives the new
id of its first element.  If the ids do not last for all the elements, those drawn before are
gone. -/
def attach (parent : Option String) (nodes : List Element) (index : Option Int) :
    Action String := fun draft =>
  match draft.planAttach parent nodes with
  | .error failure => .error failure draft
  | .ok () =>
    match draft.ids.exhausted? nodes.length with
    | some ids => .error (.noText .longInteger) { draft with ids := ids }
    | none =>
      let (id, draft) := draft.placeCopy parent nodes index
      .ok id draft

end PageBuilder.Draft
