import PageBuilder.Failure

/-!
# Catalogs of components

A catalog says for each kind of component which tag it is written as, whether it holds children,
which props and style attributes a new element starts with, and where its tag is imported from.
The order of the default props is also the order in which they are written.
-/

namespace PageBuilder

structure Component where
  kind : String
  tag : String
  /-- The name shown to people. -/
  name : String
  /-- The shelf of the catalog it is found on. -/
  shelf : String
  container : Bool := false
  props : OrderedMap Value := .empty
  style : OrderedMap Value := .empty
  /-- Where the tag is imported from; by default where the generator's options say. -/
  module : Option String := none
deriving DecidableEq, Repr

/-- Components by kind. -/
structure Catalog where
  components : OrderedMap Component
deriving DecidableEq, Repr

namespace Catalog

/-- The shelves a component can be found on. -/
def shelves : List String :=
  ["layout", "text", "buttons", "cards", "forms", "media", "navigation", "sections"]

def empty : Catalog := ⟨.empty⟩

/-- Adds a component, in the place of one of the same kind. -/
def add (catalog : Catalog) (component : Component) : Catalog :=
  ⟨catalog.components.insert component.kind component⟩

/-- Adds a component that is on a known shelf. -/
def register (catalog : Catalog) (component : Component) : Except Failure Catalog :=
  if shelves.contains component.shelf then .ok (catalog.add component)
  else .error (.unknownShelf component.shelf component.kind)

def registerAll (catalog : Catalog) : List Component → Except Failure Catalog
  | [] => .ok catalog
  | component :: rest =>
    match catalog.register component with
    | .error failure => .error failure
    | .ok catalog => registerAll catalog rest

def get? (catalog : Catalog) (kind : String) : Option Component :=
  catalog.components.get? kind

/-- The component of a kind, on behalf of an element if one is concerned. -/
def require (catalog : Catalog) (kind : String) (element : Option String) :
    Except Failure Component :=
  match catalog.get? kind with
  | some component => .ok component
  | none => .error (.rejected (.unknownKind kind element))

def contains (catalog : Catalog) (kind : String) : Bool :=
  catalog.components.contains kind

/-- Whether a kind is in the catalog and holds children. -/
def isContainer (catalog : Catalog) (kind : String) : Bool :=
  match catalog.get? kind with
  | some component => component.container
  | none => false

def size (catalog : Catalog) : Nat :=
  catalog.components.size

/-- The kinds in increasing order. -/
def kinds (catalog : Catalog) : List String :=
  catalog.components.keys.mergeSort

def kindsOn (catalog : Catalog) (shelf : String) : List String :=
  catalog.kinds.filter fun kind =>
    match catalog.get? kind with
    | some component => component.shelf = shelf
    | none => false

theorem get?_add (catalog : Catalog) (component : Component) (kind : String) :
    (catalog.add component).get? kind =
      if kind = component.kind then some component else catalog.get? kind :=
  catalog.components.get?_insert component.kind kind component

end Catalog

end PageBuilder
