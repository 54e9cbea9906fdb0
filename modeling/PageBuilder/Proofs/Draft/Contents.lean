import PageBuilder.Proofs.Archive.RoundTrip
import PageBuilder.Proofs.Draft.Elements
import PageBuilder.Proofs.Draft.Invariant

/-!
# What edits write can be saved

A document asks more of a page than that it is a tree: named kinds, props that pass their checks
with no deletion mark among them, texts as style attributes, and ids of one form.  An edit checks
what it is given before it layers it over what is there, and copies only what it finds, so nothing
else gets into a page (`Edit.run_storable`), whatever the page and whether the edit is carried out
or not.  A new id is of the form unless it is too long (`isValidId_idOf`), which no edit looks at:
that is left as a condition of `Edit.run_pageValid`.
-/

namespace PageBuilder

open Results

/-! ## Props and style attributes -/

/-- Props that can be saved. -/
structure Props.Storable (props : OrderedMap Value) : Prop where
  checked : Props.check props = .ok ()
  /-- The deletion mark is no value of a prop. -/
  set : ∀ p ∈ props.entries, p.2 ≠ .null

theorem Props.Storable.overlay {base update : OrderedMap Value} (h : Props.Storable base)
    (hu : Props.check update = .ok ()) : Props.Storable (overlay base update) where
  checked := Props.check_overlay h.checked hu
  set := by
    intro p hp
    rcases mem_of_overlay hp with hp | ⟨-, hne⟩
    · exact h.set p hp
    · exact hne

/-- Style attributes that can be saved. -/
def Style.Storable (style : OrderedMap Value) : Prop :=
  ∀ p ∈ style.entries, Style.isKnown p.1 = true ∧ ∃ s, p.2 = .str s

theorem Style.Storable.overlay {base update kept : OrderedMap Value} (h : Style.Storable base)
    (hk : Style.check update = .ok kept) : Style.Storable (overlay base kept) := by
  intro p hp
  rcases mem_of_overlay hp with hp | ⟨hp, hne⟩
  · exact h p hp
  · obtain ⟨value, -, hone⟩ := Style.exists_of_mem_check hk hp
    obtain ⟨hknown, hnull | htext⟩ := Style.kept_of_checkOne hone
    · exact absurd hnull hne
    · exact ⟨hknown, htext⟩

/-! ## Elements -/

/-- An element that can be saved, if its id can. -/
structure Element.Storable (e : Element) : Prop where
  kind_ne : e.kind ≠ ""
  props : Props.Storable e.props
  style : Style.Storable e.style

theorem Archive.Saveable.storable {e : Element} (h : Saveable e) : e.Storable :=
  ⟨h.kind_ne, ⟨h.props_checked, h.props_set⟩, h.style_text⟩

theorem Element.Storable.saveable {e : Element} (h : e.Storable)
    (hid : Element.isValidId e.id = true) : Archive.Saveable e :=
  ⟨hid, h.kind_ne, h.props.checked, h.props.set, h.style⟩

/-- A catalog of named kinds whose defaults can be saved. -/
def Catalog.Fit (catalog : Catalog) : Prop :=
  ∀ p ∈ catalog.components.entries,
    p.1 ≠ "" ∧ Props.Storable p.2.props ∧ Style.Storable p.2.style

namespace Catalog

variable {catalog : Catalog}

theorem Fit.of_get? (h : catalog.Fit) {kind : String} {component : Component}
    (hc : catalog.get? kind = some component) :
    kind ≠ "" ∧ Props.Storable component.props ∧ Style.Storable component.style :=
  h _ ((catalog.components.mem_entries_iff _ _).2 hc)

theorem Fit.defaultsKnown (h : catalog.Fit) : catalog.DefaultsKnown := by
  intro kind component hc category hm
  obtain ⟨p, hp, rfl⟩ := List.mem_map.1 hm
  exact ((h.of_get? hc).2.2 p hp).1

theorem builtIn_fit : builtIn.Fit := by
  have hfit : ∀ p ∈ builtIn.components.entries,
      p.1 ≠ "" ∧ Props.check p.2.props = .ok () ∧ (∀ q ∈ p.2.props.entries, q.2 ≠ .null) ∧
        ∀ q ∈ p.2.style.entries, Style.isKnown q.1 = true ∧ q.2 = .str q.2.savedText := by
    decide +kernel
  intro p hp
  obtain ⟨hne, hchecked, hset, hstyle⟩ := hfit p hp
  exact ⟨hne, ⟨hchecked, hset⟩, fun q hq => ⟨(hstyle q hq).1, _, (hstyle q hq).2⟩⟩

theorem Fit.orBuiltIn (h : catalog.Fit) : catalog.orBuiltIn.Fit := by
  unfold Catalog.orBuiltIn
  split
  · exact builtIn_fit
  · exact h

end Catalog

/-- No edit makes of an element that can be saved one that cannot. -/
theorem Catalog.Fit.kept {catalog : Catalog} (h : catalog.Fit) :
    Element.Kept catalog Element.Storable where
  relinked he hkind hprops hstyle :=
    ⟨hkind ▸ he.kind_ne, hprops ▸ he.props, hstyle ▸ he.style⟩
  props he hchecked := ⟨he.kind_ne, he.props.overlay hchecked, he.style⟩
  style he hchecked := ⟨he.kind_ne, he.props, he.style.overlay hchecked⟩
  inserted _ hcomponent hprops hstyle :=
    have hdefaults := h.of_get? hcomponent
    ⟨hdefaults.1, hdefaults.2.1.overlay hprops, hdefaults.2.2.overlay hstyle⟩

/-- Every element of a page can be saved, if its id can. -/
def Page.Storable (page : Page) : Prop :=
  ∀ id e, page.get? id = some e → e.Storable

namespace Draft

open Page

variable {draft after : Draft}

/-- Copied elements that an edit attaches can be saved, if their ids can. -/
def Edit.AttachesStorable : Edit → Prop
  | .attach _ nodes _ => ∀ node ∈ nodes, node.Storable
  | _ => True

theorem Edit.run_storable (hfit : draft.catalog.Fit) (h : draft.page.Storable) {edit : Edit}
    (hedit : edit.AttachesStorable) : (stateOf (edit.run draft)).page.Storable := by
  apply Edit.run_every hfit.kept h
  rintro parent nodes index rfl
  exact hedit

theorem copy_storable (hfit : draft.catalog.Fit) (h : draft.page.Storable) {id : String}
    {nodes : List Element} (hcopy : draft.copy id = .ok nodes) : ∀ node ∈ nodes, node.Storable :=
  copy_every hfit.kept h hcopy

end Draft

/-! ## Pages that make a document -/

namespace Archive

/-- A page that makes a document, whatever of it is selected. -/
structure PageValid (catalog : Catalog) (page : Page) : Prop where
  keyed : page.Keyed
  saveable : ∀ {id e}, page.get? id = some e → Saveable e
  consistent : page.problems catalog.orBuiltIn false = []

theorem DocumentValid.page {catalog : Catalog} {s : Snapshot} (h : DocumentValid catalog s) :
    PageValid catalog s.page :=
  ⟨h.keyed, fun he => h.saveable _ ((OrderedMap.mem_entries_iff _ _ _).2 he), h.consistent⟩

variable {catalog : Catalog} {page : Page}

theorem PageValid.storable (h : PageValid catalog page) : page.Storable :=
  fun _ _ he => (h.saveable he).storable

theorem PageValid.linked (h : PageValid catalog page) : page.Linked :=
  (Page.problems_eq_nil_iff.1 h.consistent).1.linked

theorem PageValid.isValidId (h : PageValid catalog page) {id : String}
    (hc : page.contains id = true) : Element.isValidId id = true := by
  obtain ⟨e, he⟩ := Page.contains_iff_get?.1 hc
  have hid := (h.saveable he).id_valid
  rwa [h.keyed he] at hid

end Archive

/-- An edit of a page that makes a document leaves one, as long as the new ids are not too long. -/
theorem Draft.Edit.run_pageValid {catalog : Catalog} {draft after : Draft} {edit : Draft.Edit}
    {effect : Draft.Effect} (hfit : catalog.Fit) (hcatalog : draft.catalog = catalog.orBuiltIn)
    (hc : draft.Consistent) (hstem : draft.ids.stem = ({} : IdSource).stem)
    (h : Archive.PageValid catalog draft.page) (htree : edit.AttachesTree)
    (hstorable : edit.AttachesStorable) (hrun : edit.run draft = .ok effect after)
    (hids : ∀ id ∈ edit.drawn draft, id.length ≤ 64) : Archive.PageValid catalog after.page := by
  have hdraft : draft.catalog.Fit := by
    rw [hcatalog]
    exact hfit.orBuiltIn
  have hstep := Draft.run_step hc htree hrun
  have hadmits : Page.Admits draft.catalog draft.page false := by
    rw [hcatalog]
    exact (Page.problems_eq_nil_iff.1 h.consistent).2
  have hstored : after.page.Storable := by
    have hstored := Edit.run_storable hdraft h.storable hstorable
    rwa [hrun] at hstored
  refine ⟨hstep.keyed, fun {id e} he => (hstored _ _ he).saveable ?_, ?_⟩
  · rw [hstep.keyed he]
    rcases Edit.contains_of_run hrun (Page.contains_iff_get?.2 ⟨e, he⟩) with hold | hnew
    · exact h.isValidId hold
    · obtain ⟨-, -, -, -, -, hall⟩ := IdSource.drawMany_fresh hc.ahead
        (show IdSource.drawMany edit.draws draft.ids = (edit.drawn draft, _) from rfl)
      obtain ⟨n, rfl, -⟩ := hall id hnew
      exact IdSource.isValidId_idOf hstem (hids _ hnew)
  · have hafter : Page.Admits draft.catalog after.page false :=
      hstep.admits hdraft.defaultsKnown hadmits
    rw [hcatalog] at hafter
    exact Page.problems_eq_nil_iff.2 ⟨hstep.linked.isTree, hafter⟩

end PageBuilder
