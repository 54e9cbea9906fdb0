import PageBuilder.Proofs.Archive.Gate
import PageBuilder.Proofs.Draft.Contents
import PageBuilder.Proofs.Page.Attributes
import PageBuilder.Proofs.Session.Coupled

/-!
# What a load lets into a session

A load checks a snapshot with the check of partial updates, in which null is no fault but marks a
deletion, and of the style attributes it checks the categories only.  `checkLoad_eq_ok_iff_admits`
says what that comes to.  So the page that was loaded may hold what no edit writes and no document
does: a prop that is null, a style attribute that is not a text.  If it does not, it goes through a
document and back.
-/

namespace PageBuilder

open Results

/-! ## The check of a snapshot -/

namespace Session

variable {catalog : Catalog} {snapshot : Snapshot} {s t : Session}

theorem propFaults_eq_nil_iff {elements : List Element} :
    propFaults elements = [] ↔ ∀ e ∈ elements, Props.check e.props = .ok () := by
  rw [propFaults, List.filterMap_eq_nil_iff]
  apply forall₂_congr
  intro e _
  cases Props.check e.props <;> simp

/-- The check asks for ids that can be counted past, for a tree that the catalog admits, and of each
prop for its name and that its value is null or one that can be assigned.  It does not ask for the
values of style attributes. -/
theorem checkLoad_eq_ok_iff_admits :
    checkLoad catalog snapshot = .ok () ↔
      (∃ draft, Draft.ofPage catalog {} snapshot.page = .ok draft) ∧ snapshot.page.IsTree ∧
        Page.Admits catalog.orBuiltIn snapshot.page false ∧
        ∀ id e, snapshot.page.get? id = some e →
          ∀ p ∈ e.props.entries, Props.Nameable p.1 ∧ (p.2 = .null ∨ p.2.Assignable) := by
  have hprops : propFaults snapshot.page.elements.values = [] ↔
      ∀ id e, snapshot.page.get? id = some e →
        ∀ p ∈ e.props.entries, Props.Nameable p.1 ∧ (p.2 = .null ∨ p.2.Assignable) := by
    rw [propFaults_eq_nil_iff]
    simp only [Props.check_eq_ok_iff, Page.get?, ← OrderedMap.mem_entries_iff]
    constructor
    · intro h id e hm
      exact h e (List.mem_map.2 ⟨_, hm, rfl⟩)
    · intro h e hm
      obtain ⟨⟨id, f⟩, hentry, rfl⟩ := List.mem_map.1 hm
      exact h id f hentry
  rw [checkLoad_eq_ok_iff, Page.problems_eq_nil_iff, hprops, and_assoc]

/-- A load that succeeds has checked the snapshot and made its page the page being edited. -/
theorem exists_of_load (h : Session.load snapshot s = .ok () t) :
    checkLoad s.draft.catalog snapshot = .ok () ∧ t.draft.page = snapshot.page := by
  have hrun : (Command.load (.snapshot snapshot)).run s = .ok .done t := map_of_ok h _
  obtain ⟨given, draft, hread, hcheck, hdraft, rfl⟩ := loaded_of_ok hrun
  cases hread
  refine ⟨hcheck, ?_⟩
  rw [draft_changed]
  exact (IdSource.ofPage_eq hdraft).2

end Session

/-! ## Saving a page whose elements have other ids

A document lists an element under the key it is stored under and does not say what id it has, so a
page is saved as if every element had its key for an id. -/

/-- The page with every element having the id it is stored under. -/
def Page.filed (page : Page) : Page :=
  { page with elements := page.elements.mapValues fun id e => { e with id := id } }

namespace Page

variable {page : Page} {catalog : Catalog} {checkKinds : Bool}

theorem get?_filed (page : Page) (id : String) :
    page.filed.get? id = (page.get? id).map fun e => { e with id := id } :=
  OrderedMap.get?_mapValues _ page.elements id

theorem contains_filed (page : Page) : page.filed.contains = page.contains := by
  funext id
  show (page.filed.get? id).isSome = (page.get? id).isSome
  rw [get?_filed, Option.isSome_map]

theorem keyed_filed (page : Page) : page.filed.Keyed := by
  intro id f hf
  rw [get?_filed, Option.map_eq_some_iff] at hf
  obtain ⟨e, -, rfl⟩ := hf
  rfl

/-- Ids that elements have by themselves play no part in the structure of a page. -/
theorem problems_filed (h : page.problems catalog checkKinds = []) :
    page.filed.problems catalog checkKinds = [] := by
  rw [problems_eq_nil_iff, isTree_iff_linked] at h ⊢
  obtain ⟨hlinked, hadmits⟩ := h
  constructor
  · refine hlinked.congr (show page.filed.root = page.root from rfl) ?_ ?_
    · intro x e he
      rw [get?_filed, he]
      exact ⟨_, rfl, rfl, rfl⟩
    · intro y f hf
      rw [get?_filed, Option.map_eq_some_iff] at hf
      obtain ⟨e, he, -⟩ := hf
      exact ⟨e, he⟩
  · intro x f hf
    rw [get?_filed, Option.map_eq_some_iff] at hf
    obtain ⟨e, he, rfl⟩ := hf
    have hadmitted := hadmits he
    exact ⟨hadmitted.holds_children, hadmitted.kind_known, hadmitted.style_known⟩

end Page

namespace Archive

theorem elementsJson_filed (entries : List (String × Element)) :
    elementsJson (entries.map fun p => (p.1, { p.2 with id := p.1 })) = elementsJson entries := by
  induction entries with
  | nil => rfl
  | cons p rest ih =>
    rw [List.map_cons, elementsJson, elementsJson, ih]
    rfl

theorem write_filed (page : Page) (selection : List String) (viewport : Viewport) :
    write (.ofPage page.filed selection viewport) = write (.ofPage page selection viewport) := by
  have helements : elementsJson page.filed.elements.entries = elementsJson page.elements.entries :=
    elementsJson_filed page.elements.entries
  simp only [write, writableJson, toJson, Snapshot.ofPage, helements, Page.contains_filed]
  rfl

theorem writable_filed_iff (page : Page) (selection : List String) (viewport : Viewport) :
    Writable (.ofPage page.filed selection viewport) ↔
      Writable (.ofPage page selection viewport) :=
  List.forall_mem_map

/-- A page of a kind that documents have, looked at in a way that documents have. -/
theorem documentValid_filed {catalog : Catalog} {page : Page} {viewport : Viewport}
    (hproblems : page.problems catalog.orBuiltIn false = [])
    (hids : ∀ id e, page.get? id = some e → Element.isValidId id = true) (hpage : page.Storable)
    (selection : List String) (hviewport : ViewportValid viewport) :
    DocumentValid catalog (.ofPage page.filed selection viewport) where
  keyed := page.keyed_filed
  saveable := by
    rintro ⟨id, f⟩ hm
    have hf : page.filed.get? id = some f := (OrderedMap.mem_entries_iff _ _ _).1 hm
    rw [Page.get?_filed, Option.map_eq_some_iff] at hf
    obtain ⟨e, he, rfl⟩ := hf
    have hstorable := hpage id e he
    exact Element.Storable.saveable ⟨hstorable.kind_ne, hstorable.props, hstorable.style⟩
      (hids id e he)
  consistent := Page.problems_filed hproblems
  selected id hid := (List.mem_filter.1 hid).2
  viewport := by
    show ViewportValid viewport.orStandard
    rwa [Viewport.orStandard_eq hviewport.isEmpty_eq]

end Archive

/-! ## What is let in -/

namespace Session

variable {snapshot : Snapshot} {s t : Session}

/-- Every prop of a page that was loaded has a name that an edit can give it, and a value that an
edit can give it or null; every style attribute is of a known category.  If there is no null and
the style attributes are texts, and the elements are of named kinds and stored under ids of the form
of ids, the page is saved and read again with the same content, whatever is selected and shown,
unless a prop is an integer of too many digits. -/
theorem load_admits (h : Session.load snapshot s = .ok () t) :
    t.draft.page = snapshot.page ∧
    (∀ id e, t.draft.page.get? id = some e →
      (∀ p ∈ e.props.entries, Props.Nameable p.1 ∧ (p.2 = .null ∨ p.2.Assignable)) ∧
      ∀ p ∈ e.style.entries, Style.isKnown p.1 = true) ∧
    ((∀ id e, t.draft.page.get? id = some e → Element.isValidId id = true ∧ e.kind ≠ "" ∧
        (∀ p ∈ e.props.entries, p.2 ≠ .null) ∧ ∀ p ∈ e.style.entries, ∃ text, p.2 = .str text) →
      (∀ id e, t.draft.page.get? id = some e → ∀ p ∈ e.props.entries, p.2.Assignable) ∧
      ∀ selection viewport, Archive.ViewportValid viewport →
        let shown : Snapshot := .ofPage t.draft.page selection viewport
        (Archive.Writable shown → ∃ text again, Archive.write shown = .ok text ∧
          Archive.read text s.draft.catalog = .ok again ∧
          again.SameContent (.ofPage t.draft.page.filed selection viewport)) ∧
        (¬ Archive.Writable shown → Archive.write shown = .error (.noText .longInteger))) := by
  obtain ⟨hcheck, hpage⟩ := exists_of_load h
  have hproblems := (checkLoad_eq_ok_iff.1 hcheck).2.1
  obtain ⟨-, -, hadmits, hprops⟩ := checkLoad_eq_ok_iff_admits.1 hcheck
  rw [← hpage] at hproblems hadmits hprops
  have hstyle {id : String} {e : Element} (he : t.draft.page.get? id = some e) :
      ∀ p ∈ e.style.entries, Style.isKnown p.1 = true :=
    fun p hp => (hadmits he).style_known p.1 (List.mem_map_of_mem hp)
  refine ⟨hpage, fun id e he => ⟨hprops id e he, hstyle he⟩, fun hplain => ⟨?_, ?_⟩⟩
  · intro id e he p hp
    obtain ⟨-, -, hset, -⟩ := hplain id e he
    exact (hprops id e he p hp).2.resolve_left (hset p hp)
  · intro selection viewport hviewport
    have hstorable : t.draft.page.Storable := by
      intro id e he
      obtain ⟨-, hkind, hset, htexts⟩ := hplain id e he
      exact ⟨hkind, ⟨Props.check_eq_ok_iff.2 (hprops id e he), hset⟩,
        fun p hp => ⟨hstyle he p hp, htexts p hp⟩⟩
    have hvalid := Archive.documentValid_filed hproblems (fun id e he => (hplain id e he).1)
      hstorable selection hviewport
    dsimp only
    rw [← Archive.writable_filed_iff, ← Archive.write_filed]
    exact ⟨Archive.read_write hvalid, fun hw => (Archive.write_eq_error hvalid hw).1⟩

/-- A page of plain elements, saved with nothing selected. -/
theorem load_admits_sample :
    ∃ s t, Session.start .builtIn .empty none {} = .ok s ∧
      Session.load Archive.sample s = .ok () t ∧ t.draft.page = Archive.sample.page ∧
      ∃ text again, Archive.write (.ofPage t.draft.page [] .standard) = .ok text ∧
        Archive.read text s.draft.catalog = .ok again := by
  obtain ⟨s, hstart, hcatalog⟩ : ∃ s, Session.start .builtIn .empty none {} = .ok s ∧
      s.draft.catalog = Catalog.builtIn.orBuiltIn := ⟨_, rfl, rfl⟩
  obtain ⟨t, hload, -⟩ := Archive.load_valid Archive.sample_valid hcatalog
  obtain ⟨hpage, -, hplain⟩ := load_admits hload
  have hviewport : Archive.ViewportValid .standard :=
    ⟨"desktop", 100, by decide, by decide, by decide, .refl _⟩
  obtain ⟨-, hsaved⟩ := hplain (by
    intro id e he
    rw [hpage] at he
    have hm := (OrderedMap.mem_entries_iff _ _ _).2 he
    have hsaveable := Archive.sample_valid.saveable _ hm
    refine ⟨?_, hsaveable.kind_ne, hsaveable.props_set, fun p hp => (hsaveable.style_text p hp).2⟩
    rw [← Archive.sample_valid.keyed he]
    exact hsaveable.id_valid)
  have hwritable : Archive.Writable (.ofPage t.draft.page [] .standard) := by
    rw [hpage]
    exact Archive.sample_writable
  obtain ⟨text, again, hwrite, hread, -⟩ := (hsaved [] .standard hviewport).1 hwritable
  exact ⟨s, t, hstart, hload, hpage, text, again, hwrite, hread⟩

/-- One element whose title is null and whose padding is a truth value. -/
def unassignable : Snapshot where
  page := {
    elements := .ofList [("a", ⟨"a", "text", .ofList [("title", .null)],
      .ofList [("padding", .bool true)], [], none⟩)]
    root := some "a" }

/-- A null is let in as a prop, which the markup has an attribute of, and a truth value as a style
attribute; and what is saved of them is refused. -/
theorem load_admits_null :
    ∃ s t, Session.start .builtIn .empty none {} = .ok s ∧
      Session.load unassignable s = .ok () t ∧
      (∃ id e, t.draft.page.get? id = some e ∧ (∃ p ∈ e.props.entries, ¬ p.2.Assignable ∧
        Markup.propAttribute p.1 p.2 = .ok "title=\"None\"") ∧
        ∃ p ∈ e.style.entries, p.2 = .bool true) ∧
      ∃ json failure, Archive.toJson t.snapshot = .ok json ∧
        Archive.ofJson json s.draft.catalog = .error failure := by
  have hrun : ((Session.start .builtIn .empty none {}).toOption.any fun s =>
      succeeds (Session.load unassignable s) fun _ t => t.snapshot = unassignable &&
        !(Archive.ofJson unassignable.saved s.draft.catalog).toOption.isSome) = true := by
    decide +kernel
  obtain ⟨s, hstart, hrun⟩ := exists_of_any hrun
  obtain ⟨_, t, hload, hrun⟩ := exists_of_succeeds hrun
  simp only [Bool.and_eq_true, decide_eq_true_eq, Bool.not_eq_true'] at hrun
  obtain ⟨hsnapshot, hrefused⟩ := hrun
  have hpage : t.draft.page = unassignable.page := (exists_of_load hload).2
  refine ⟨s, t, hstart, hload, ⟨"a", _, by rw [hpage]; rfl, ⟨("title", .null), ?_, nofun, rfl⟩,
    ("padding", .bool true), ?_, rfl⟩, unassignable.saved, ?_⟩
  · exact List.mem_singleton.2 rfl
  · exact List.mem_singleton.2 rfl
  · rw [hsnapshot]
    cases hread : Archive.ofJson unassignable.saved s.draft.catalog with
    | ok again => simp [hread, Except.toOption] at hrefused
    | error failure => exact ⟨failure, rfl, rfl⟩

end Session

end PageBuilder
