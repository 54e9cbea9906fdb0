import PageBuilder.Archive.Read
import PageBuilder.Proofs.Maps
import PageBuilder.Proofs.Page.IdSource
import PageBuilder.Proofs.Results

/-!
# Read documents are keyed

A document gives no id to an element but the key it is listed under, so in a page that was
read every element is stored under its own id.
-/

namespace PageBuilder.Archive

open Page

theorem id_of_elementOfShape {id : String} {shape : ElementShape} {e : Element}
    (h : elementOfShape id shape = .ok e) : e.id = id := by
  unfold elementOfShape at h
  split at h
  · cases h
  · cases hp : propsOfJson id shape.props with
    | error failure => simp [hp] at h
    | ok props =>
      simp only [hp, Results.pure_eq, Results.ok_bind] at h
      split at h
      · split at h <;> cases h
      · cases h
        rfl

theorem id_of_elementsOfShape {shapes : List (String × ElementShape)}
    {elements : List (String × Element)} (h : elementsOfShape shapes = .ok elements) :
    ∀ p ∈ elements, p.2.id = p.1 := by
  induction shapes generalizing elements with
  | nil =>
    cases h
    simp
  | cons first rest ih =>
    obtain ⟨id, shape⟩ := first
    rw [elementsOfShape] at h
    cases he : elementOfShape id shape with
    | error failure => simp [he] at h
    | ok e =>
      cases hes : elementsOfShape rest with
      | error failure => simp [he, hes] at h
      | ok es =>
        simp only [he, hes, Results.ok_bind, Results.pure_eq] at h
        cases h
        exact List.forall_mem_cons.2 ⟨id_of_elementOfShape he, ih hes⟩

theorem keyed_ofList {elements : List (String × Element)} {root : Option String}
    (h : ∀ p ∈ elements, p.2.id = p.1) : (⟨.ofList elements, root⟩ : Page).Keyed := by
  intro id e he
  exact h _ (OrderedMap.mem_of_get?_ofList he)

/-- What is read of an accepted document does not depend on the catalog; whether it is accepted
does. -/
theorem snapshot_of_ofJson {json : Json} {catalog : Catalog} {snapshot : Snapshot}
    (h : ofJson json catalog = .ok snapshot) :
    ∃ shape elements, documentShape json = .ok shape ∧
      elementsOfShape shape.elements = .ok elements ∧
      (⟨.ofList elements, shape.root⟩ : Page).problems catalog.orBuiltIn false = [] ∧
      snapshot = .ofPage ⟨.ofList elements, shape.root⟩ shape.selection
        (.ofList [("name", .str shape.viewport), ("zoom", .int shape.zoom)]) := by
  unfold ofJson at h
  split at h
  · cases h
  · cases h
  · rename_i shape hshape
    cases he : elementsOfShape shape.elements with
    | error failure => simp [he] at h
    | ok elements =>
      cases hd : Draft.ofPage catalog {} ⟨.ofList elements, shape.root⟩ with
      | error failure => simp [he, hd] at h
      | ok draft =>
        simp only [he, hd, Results.ok_bind] at h
        obtain ⟨hcatalog, hpage⟩ := IdSource.ofPage_eq hd
        rw [hcatalog, hpage] at h
        split at h
        · rename_i hproblems
          cases h
          refine ⟨shape, elements, hshape, he, hproblems, ?_⟩
          rw [Draft.snapshot, hpage]
        · cases h

theorem keyed_of_ofJson {json : Json} {catalog : Catalog} {snapshot : Snapshot}
    (h : ofJson json catalog = .ok snapshot) : snapshot.page.Keyed := by
  obtain ⟨shape, elements, -, he, -, rfl⟩ := snapshot_of_ofJson h
  exact keyed_ofList (id_of_elementsOfShape he)

theorem keyed_of_read {text : String} {catalog : Catalog} {snapshot : Snapshot}
    (h : read text catalog = .ok snapshot) : snapshot.page.Keyed := by
  unfold read at h
  split at h
  · split at h <;> cases h
  · exact keyed_of_ofJson h
  · cases h

end PageBuilder.Archive
