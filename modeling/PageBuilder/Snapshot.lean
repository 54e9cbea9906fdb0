import PageBuilder.Page.Basic

/-!
# Snapshots

A snapshot is a page together with the selection and the viewport it is looked at through.  It is
what a timeline keeps, what is saved, and what code is generated from.
-/

namespace PageBuilder

abbrev Viewport : Type := OrderedMap Value

/-- The desktop viewport at full size. -/
def Viewport.standard : Viewport :=
  .ofList [("name", .str "desktop"), ("zoom", .int 100)]

/-- Viewport settings, or the standard ones in the place of none. -/
def Viewport.orStandard (viewport : Viewport) : Viewport :=
  if viewport.isEmpty then standard else viewport

theorem Viewport.orStandard_eq {viewport : Viewport} (h : viewport.isEmpty = false) :
    viewport.orStandard = viewport := by
  rw [orStandard, h]
  rfl

/-- A page with its selection and viewport. -/
structure Snapshot where
  page : Page := {}
  selection : List String := []
  viewport : Viewport := .standard
deriving DecidableEq, Repr

namespace Snapshot

/-- The snapshot every timeline starts from unless told otherwise. -/
def empty : Snapshot := {}

instance : Inhabited Snapshot := ⟨empty⟩

/-- A snapshot of a page: of the selection only what the page holds, and standard settings in the
place of none. -/
def ofPage (page : Page) (selection : List String) (viewport : Viewport) : Snapshot :=
  ⟨page, selection.filter page.contains, viewport.orStandard⟩

/-- Whether two maps hold equal values under the same keys, by a given equality. -/
def sameEntries {α : Type} (same : α → α → Bool) (m n : OrderedMap α) : Bool :=
  m.size == n.size && m.entries.all fun e =>
    match n.get? e.1 with
    | some value => same e.2 value
    | none => false

/-- Whether two elements have the same content, the order of props and style aside. -/
def sameElement (a b : Element) : Bool :=
  a.id = b.id && a.kind = b.kind && sameEntries (fun v w => v = w) a.props b.props &&
    sameEntries (fun v w => v = w) a.style b.style && a.children = b.children &&
    a.parent = b.parent

/-- Whether two snapshots have the same content, the order of map entries aside. -/
def same (s t : Snapshot) : Bool :=
  s.page.root = t.page.root && sameEntries sameElement s.page.elements t.page.elements &&
    s.selection = t.selection && sameEntries (fun v w => v = w) s.viewport t.viewport

end Snapshot

end PageBuilder
