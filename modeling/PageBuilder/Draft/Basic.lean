import PageBuilder.Page.IdSource
import PageBuilder.Page.Walk
import PageBuilder.Snapshot

/-!
# Drafts

A draft is a page being edited, with the catalog it is made from and the source of new ids.
Edits are functions from drafts to results: a result is `ok` with an answer or `error` with a
failure, and carries the draft afterwards in both cases.
-/

namespace PageBuilder

/-- A page being edited. -/
structure Draft where
  catalog : Catalog
  ids : IdSource := {}
  page : Page := {}
deriving DecidableEq, Repr

namespace Draft

/-- What an edit does to a draft. -/
abbrev Action (α : Type) : Type := EStateM Failure Draft α

/-- A draft of a page: ids in use are never handed out again, and an empty catalog is replaced by
the built-in one. -/
def ofPage (catalog : Catalog) (ids : IdSource) (page : Page) : Except Failure Draft :=
  match IdSource.advancePast page.elements.keys ids with
  | .ok () ids => .ok ⟨catalog.orBuiltIn, ids, page⟩
  | .error failure _ => .error failure

def snapshot (draft : Draft) (selection : List String) (viewport : Viewport) : Snapshot :=
  .ofPage draft.page selection viewport

/-- Lifts a check: a failure leaves the draft as it was. -/
def check {α : Type} (result : Except Failure α) : Action α := fun draft =>
  match result with
  | .ok a => .ok a draft
  | .error failure => .error failure draft

/-- Checks where a new element or copy is to go: under an element that holds children, or as the
root of an empty page. -/
def checkHost (draft : Draft) (parent : Option String) : Except Failure Unit :=
  match parent with
  | none =>
    match draft.page.root with
    | some root => .error (.rejected (.rootTaken root))
    | none => .ok ()
  | some id =>
    match draft.page.get? id with
    | none => .error (.rejected (.parentMissing id))
    | some host =>
      if draft.catalog.isContainer host.kind then .ok ()
      else .error (.rejected (.parentClosed id host.kind))

def checkProps (props : OrderedMap Value) : Except Failure Unit :=
  (Props.check props).mapError .ofProp

/-- Checks a partial update of style attributes and gives what is kept of it. -/
def checkStyle (style : OrderedMap Value) : Except Failure (OrderedMap Value) :=
  (Style.check style).mapError .ofStyle

/-- Hangs an id under a parent, or makes it the root. -/
def hang (page : Page) (parent : Option String) (index : Option Int) (id : String) : Page :=
  match parent with
  | none => { page with root := some id }
  | some parent => page.addChild parent index id

end Draft

end PageBuilder
