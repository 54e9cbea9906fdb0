import PageBuilder.Archive.Shape
import PageBuilder.Draft.Basic
import PageBuilder.Page.Integrity

/-!
# Reading a saved document

A text passes four gates before a snapshot is made of it: it is JSON, it has the shape of a
document, its ids and props are ones a page can have, and its elements form a tree.  Kinds that
the catalog does not have are let pass; generating code reports them.
-/

namespace PageBuilder.Archive

/-- The key of the one member of an object that stands for a binding. -/
def bindingKey : String := "$bind"

def refuse {α : Type} (fault : DocumentFault) : Except Failure α :=
  .error (.rejected (.document fault))

/-- Refuses a value that is shown, if it has a text. -/
def refuseShown {α : Type} (fault : Value → DocumentFault) (value : Value) : Except Failure α :=
  match value.textFault? with
  | some fault => .error (.noText fault)
  | none => refuse (fault value)

/-- The value of a prop in a document. -/
def propOfJson (element name : String) : Json → Except Failure Value
  | .object [(key, .str expression)] =>
    if key = bindingKey then .ok (.binding (.str expression))
    else refuse (.foreignObject element name)
  | .object _ => refuse (.foreignObject element name)
  | .null => refuseShown (.unsupportedProp element name) .null
  | .array items => refuseShown (.unsupportedProp element name) (.ofJson (.array items))
  | json => .ok (.ofJson json)

def propsOfJson (element : String) : List (String × Json) → Except Failure (List (String × Value))
  | [] => .ok []
  | (name, json) :: rest => do
    let value ← propOfJson element name json
    let values ← propsOfJson element rest
    return (name, value) :: values

/-- An element of a document, with props that have passed the checks of a page. -/
def elementOfShape (id : String) (shape : ElementShape) : Except Failure Element := do
  if !Element.isValidId id then refuse (.badId id)
  let props ← propsOfJson id shape.props
  let props := OrderedMap.ofList props
  match Props.check props with
  | .error fault =>
    match fault.textFault? with
    | some fault => .error (.noText fault)
    | none => refuse (.prop id fault)
  | .ok () =>
    return ⟨id, shape.kind, props,
      .ofList (shape.style.map fun p => (p.1, .str p.2)), shape.children, shape.parent⟩

def elementsOfShape : List (String × ElementShape) → Except Failure (List (String × Element))
  | [] => .ok []
  | (id, shape) :: rest => do
    let e ← elementOfShape id shape
    let es ← elementsOfShape rest
    return (id, e) :: es

def ofJson (json : Json) (catalog : Catalog) : Except Failure Snapshot := do
  match documentShape json with
  | .error [] => refuse .noObject
  | .error (first :: more) => refuse (.shape first more.length)
  | .ok shape =>
    let elements ← elementsOfShape shape.elements
    let draft ← Draft.ofPage catalog {} ⟨.ofList elements, shape.root⟩
    match draft.page.problems draft.catalog false with
    | [] =>
      return draft.snapshot shape.selection
        (.ofList [("name", .str shape.viewport), ("zoom", .int shape.zoom)])
    | problems => refuse (.inconsistent problems [])

def read (text : String) (catalog : Catalog) : Except Failure Snapshot :=
  match Json.read text with
  | .error fault =>
    match fault.cause with
    | .longNumeral digits => .error (.longNumeral digits)
    | _ => refuse (.text fault)
  | .ok (.object members) => ofJson (.object members) catalog
  | .ok _ => refuse .noObject

end PageBuilder.Archive
