import PageBuilder.Proofs.Draft.Atomic
import PageBuilder.Proofs.Page.Admission

/-!
# Edits keep pages well formed

What an edit relies on and what it keeps is `Consistent`: the page is a tree of elements under
their own ids, and the source of ids is ahead of it.  `run_step` says it of one edit, by the cases
of `Proofs.Draft.Edits`; `wellFormed_runAll` says it of every run of edits, carried out or turned
down, together with what the catalog asks of the elements.

Freshness of ids has to be part of the invariant: a new element under an id in use would be a
second one in the place of the first.
-/

namespace PageBuilder

/-- Style attributes that new elements start with are of known categories. -/
def Catalog.DefaultsKnown (catalog : Catalog) : Prop :=
  ∀ {kind component}, catalog.get? kind = some component →
    ∀ category ∈ component.style.keys, Style.isKnown category = true

theorem Catalog.defaultsKnown_of_entries {catalog : Catalog}
    (h : ∀ p ∈ catalog.components.entries, ∀ category ∈ p.2.style.keys,
      Style.isKnown category = true) : catalog.DefaultsKnown :=
  fun hc => h _ ((catalog.components.mem_entries_iff _ _).2 hc)

theorem Catalog.builtIn_defaultsKnown : Catalog.builtIn.DefaultsKnown :=
  defaultsKnown_of_entries (by decide +kernel)

/-- A new element by itself is admitted with its kind and its style. -/
theorem Page.admits_single {catalog : Catalog} {checkKinds : Bool} {e : Element}
    (hchildren : e.children = []) (hkind : checkKinds = true → catalog.contains e.kind = true)
    (hstyle : ∀ category ∈ e.style.keys, Style.isKnown category = true) :
    Admits catalog (ofNodes [e]) checkKinds := by
  intro id f hf
  obtain ⟨rfl, -⟩ := get?_ofNodes_single.1 hf
  exact ⟨fun _ hne => absurd hchildren hne, hkind, hstyle⟩

namespace Draft

open Page

variable {draft after : Draft}

/-- A draft that edits can be made on. -/
structure Consistent (draft : Draft) : Prop where
  keyed : draft.page.Keyed
  linked : draft.page.Linked
  /-- Ids that are handed out from now on are new. -/
  ahead : draft.ids.Ahead draft.page
  /-- The source of ids makes sense of all ids of the page. -/
  reads : ∀ {id}, draft.page.contains id = true → draft.ids.Reads id

/-- Copied elements that an edit attaches make a tree by themselves. -/
def Edit.AttachesTree : Edit → Prop
  | .attach _ nodes _ => Detached nodes
  | _ => True

/-! ## One edit -/

/-- What an edit that is carried out keeps. -/
structure Step (draft after : Draft) : Prop where
  catalog : after.catalog = draft.catalog
  keyed : after.page.Keyed
  linked : after.page.Linked
  stem : after.ids.stem = draft.ids.stem
  next_le : draft.ids.next ≤ after.ids.next
  /-- Ids of the page were there before or have been handed out, and can be read again. -/
  ids : ∀ {id}, after.page.contains id = true → draft.page.contains id = true ∨
    draft.ids.Reads id ∧ ∃ n : Nat, id = draft.ids.idOf n ∧ (n : Int) < after.ids.next
  admits : ∀ {checkKinds}, draft.catalog.DefaultsKnown →
    Admits draft.catalog draft.page checkKinds → Admits draft.catalog after.page checkKinds

theorem Step.consistent (hs : Step draft after) (h : draft.Consistent) : after.Consistent where
  keyed := hs.keyed
  linked := hs.linked
  ahead := h.ahead.mono hs.stem hs.next_le fun _ hc => (hs.ids hc).imp_right And.right
  reads hc := by
    rw [IdSource.reads_congr hs.stem]
    exact (hs.ids hc).elim h.reads And.left

theorem step_of_grafted {part : Page} {parent : Option String} {index : Option Int} {top : String}
    (h : draft.Consistent) (hl : part.Linked) (hk : part.Keyed) (hhost : draft.CanHost parent)
    (hg : draft.page.Grafted part parent index top after.page)
    (hcatalog : after.catalog = draft.catalog) (hstem : after.ids.stem = draft.ids.stem)
    (hle : draft.ids.next ≤ after.ids.next)
    (hids : ∀ {id e}, part.get? id = some e →
      draft.ids.Reads id ∧ ∃ n : Nat, id = draft.ids.idOf n ∧ (n : Int) < after.ids.next)
    (hpart : draft.catalog.DefaultsKnown → Admits draft.catalog part true) : Step draft after where
  catalog := hcatalog
  keyed := Keyed.grafted h.keyed hk hg
  linked := h.linked.grafted hl hg
  stem := hstem
  next_le := hle
  ids hc := by
    obtain ⟨f, hf⟩ := contains_iff_get?.1 hc
    rcases hg.get?_cases hf with ⟨q, hq, -⟩ | ⟨e, he, -⟩
    · exact Or.inr (hids hq)
    · exact Or.inl (contains_iff_get?.2 ⟨e, he⟩)
  admits hd ha := by
    refine ha.grafted (fun hq => (hpart hd hq).weaken) ?_ hg
    rintro id e rfl he
    exact hhost.isContainer he

/-- Edits that neither add elements nor take ids. -/
theorem step_of_page {page : Page} (hkeyed : page.Keyed) (hlinked : page.Linked)
    (hsub : ∀ {id e}, page.get? id = some e → ∃ e', draft.page.get? id = some e')
    (hadmits : ∀ {checkKinds}, Admits draft.catalog draft.page checkKinds →
      Admits draft.catalog page checkKinds) : Step draft { draft with page := page } where
  catalog := rfl
  keyed := hkeyed
  linked := hlinked
  stem := rfl
  next_le := Int.le_refl _
  ids hc := by
    obtain ⟨e, he⟩ := contains_iff_get?.1 hc
    exact Or.inl (contains_iff_get?.2 (hsub he))
  admits _ ha := hadmits ha

theorem insert_step (h : draft.Consistent) {parent : Option String} {kind : String}
    {index : Option Int} {props style : OrderedMap Value} {id : String}
    (hrun : Draft.insert parent kind index props style draft = .ok id after) :
    Step draft after := by
  rcases insert_cases draft parent kind index props style with hno |
    ⟨component, kept, hc, hhost, hk, hlast, hok⟩
  · exact absurd hrun hno.ne_ok
  cases hok.symm.trans hrun
  have hd := detached_single (e := fresh (draft.ids.idOf draft.ids.next) kind
    (overlay component.props props) (overlay component.style kept) none) rfl rfl
  obtain ⟨n, hn⟩ := Int.eq_ofNat_of_zero_le h.ahead.next_nonneg
  have hle : draft.ids.next ≤ draft.ids.next + 1 := by omega
  refine step_of_grafted h hd.linked hd.keyed hhost (place_grafted h.ahead index hhost) rfl rfl
    hle (fun he => ?_) fun hdefaults => admits_single rfl ?_ ?_
  · obtain ⟨rfl, rfl⟩ := get?_ofNodes_single.1 he
    have hdrawn : draft.ids.idOf draft.ids.next ∈ (IdSource.drawMany 1 draft.ids).1 :=
      List.mem_singleton.2 rfl
    refine ⟨IdSource.reads_of_mem_drawMany h.ahead.next_nonneg hlast hdrawn, n,
      congrArg draft.ids.idOf hn, ?_⟩
    simp only [place, IdSource.draw]
    omega
  · intro _
    exact Option.isSome_iff_exists.2 ⟨component, hc⟩
  · intro category hm
    exact (mem_keys_of_overlay hm).elim (hdefaults hc category) (hk category)

theorem move_step (h : draft.Consistent) {id target : String} {index : Option Int}
    (hrun : Draft.move id target index draft = .ok () after) : Step draft after := by
  rcases move_cases h.linked id target index with hno |
    ⟨old, host, draft', hok, hhost, hc, hcatalog, hids, hr⟩
  · exact absurd hrun hno.ne_ok
  cases hok.symm.trans hrun
  refine ⟨hcatalog, Keyed.rehung h.keyed hr, h.linked.rehung hr, by rw [hids],
    Int.le_of_eq (congrArg IdSource.next hids.symm), fun hx => ?_,
    fun _ ha => ha.rehung (fun he => ?_) hr⟩
  · obtain ⟨f, hf⟩ := contains_iff_get?.1 hx
    exact Or.inl (contains_iff_get?.2 (hr.exists_page hf))
  · cases hhost.symm.trans he
    exact hc

theorem updateProps_step (h : draft.Consistent) {id : String} {props : OrderedMap Value}
    (hrun : Draft.updateProps id props draft = .ok () after) : Step draft after := by
  rcases updateProps_cases draft id props with hno | ⟨-, hok⟩
  · exact absurd hrun hno.ne_ok
  cases hok.symm.trans hrun
  refine step_of_page (Keyed.modify h.keyed fun e => ?_) (h.linked.modify (fun e => ?_) fun e => ?_)
    (fun hx => (exists_of_modify hx).imp fun _ he => he.1) fun ha => ha.modify fun hadm => ?_
  · rfl
  · rfl
  · rfl
  · exact hadm.of_alike ⟨rfl, rfl, rfl⟩ Or.inl

theorem updateStyle_step (h : draft.Consistent) {id : String} {style : OrderedMap Value}
    (hrun : Draft.updateStyle id style draft = .ok () after) : Step draft after := by
  rcases updateStyle_cases draft id style with hno | ⟨-, kept, hk, hok⟩
  · exact absurd hrun hno.ne_ok
  cases hok.symm.trans hrun
  refine step_of_page (Keyed.modify h.keyed fun e => ?_) (h.linked.modify (fun e => ?_) fun e => ?_)
    (fun hx => (exists_of_modify hx).imp fun _ he => he.1) fun ha => ha.modify fun hadm => ?_
  · rfl
  · rfl
  · rfl
  · exact ⟨hadm.holds_children, hadm.kind_known, fun category hm =>
      (mem_keys_of_overlay hm).elim (hadm.style_known category) (hk category)⟩

theorem remove_step (h : draft.Consistent) {id : String} {ids : List String}
    (hrun : Draft.remove id draft = .ok ids after) : Step draft after := by
  rcases remove_cases h.linked h.keyed id with hno |
    ⟨ids', old, draft', hok, -, hcatalog, hids, hp⟩
  · exact absurd hrun hno.ne_ok
  cases hok.symm.trans hrun
  refine ⟨hcatalog, Keyed.pruned h.keyed hp, h.linked.pruned hp, by rw [hids],
    Int.le_of_eq (congrArg IdSource.next hids.symm), fun hx => ?_,
    fun _ ha => ha.pruned hp⟩
  obtain ⟨f, hf⟩ := contains_iff_get?.1 hx
  obtain ⟨e, he, -⟩ := hp.get?_cases hf
  exact Or.inl (contains_iff_get?.2 ⟨e, he⟩)

theorem clear_step {ids : List String} (hrun : Draft.clear draft = .ok ids after) :
    Step draft after := by
  cases hrun
  exact step_of_page (fun he => by cases he) linked_empty (fun he => by cases he)
    fun _ _ _ he => by cases he

theorem attach_step (h : draft.Consistent) {parent : Option String} {nodes : List Element}
    {index : Option Int} (hd : Detached nodes) {id : String}
    (hrun : Draft.attach parent nodes index draft = .ok id after) : Step draft after := by
  rcases attach_cases draft parent nodes index with hno | hno | ⟨hall, hhost, hlast, hok⟩
  · exact absurd hrun hno.ne_ok
  · exact absurd hrun hno.ne_ok
  cases hok.symm.trans hrun
  obtain ⟨names, part, -, rfl, hpart, hg, hids⟩ := placeCopy_grafted index h.ahead hd
    (hhost.imp id fun ⟨id, e, hp, he, _⟩ => ⟨id, e, hp, he⟩)
  refine step_of_grafted h hpart.linked hpart.keyed hhost hg rfl ?_ ?_ (fun he => ?_)
    fun _ x e he => ?_
  · simp [placeCopy, IdSource.drawMany_eq]
  · simp only [placeCopy, IdSource.drawMany_eq]
    omega
  all_goals
    obtain ⟨hm, rfl⟩ := (get?_ofNodes_iff hpart.nodup).1 he
  · obtain ⟨hdrawn, hnumber⟩ := hids _ hm
    exact ⟨IdSource.reads_of_mem_drawMany h.ahead.next_nonneg hlast hdrawn, hnumber⟩
  · obtain ⟨node, hnode, rfl⟩ := List.mem_map.1 hm
    have hok := hall node hnode
    refine ⟨fun _ hne => hok.holds_children fun hnil => hne ?_, fun _ => hok.kind_known,
      hok.style_known⟩
    simp [renamed, hnil]

/-- An edit that is carried out keeps the page a tree, takes only new ids, and stores only
elements that the catalog admits. -/
theorem run_step (h : draft.Consistent) {edit : Edit} (hedit : edit.AttachesTree) {effect : Effect}
    (hrun : edit.run draft = .ok effect after) : Step draft after := by
  cases edit <;> obtain ⟨b, hb, -⟩ := Results.exists_of_map_ok hrun
  case insert => exact insert_step h hb
  case move => exact move_step h hb
  case updateProps => exact updateProps_step h hb
  case updateStyle => exact updateStyle_step h hb
  case remove => exact remove_step h hb
  case clear => exact clear_step hb
  case attach => exact attach_step h hedit hb

/-! ## Runs -/

theorem ofPage_consistent {catalog : Catalog} {ids : IdSource} {page : Page}
    (hn : 0 ≤ ids.next) (hk : page.Keyed) (hl : page.Linked)
    (h : Draft.ofPage catalog ids page = .ok draft) :
    draft.catalog = catalog.orBuiltIn ∧ draft.page = page ∧ draft.ids.stem = ids.stem ∧
      draft.Consistent := by
  obtain ⟨source, hsource, rfl⟩ := IdSource.exists_of_ofPage h
  obtain ⟨hstem, -, hall⟩ := IdSource.advancePast_ok hsource
  refine ⟨rfl, rfl, hstem, hk, hl, IdSource.ahead_of_advancePast hn hsource, fun hc => ?_⟩
  exact (IdSource.reads_congr hstem _).2 (hall _ ((page.elements.contains_iff _).1 hc)).1

/-- An edit that fails has moved the source of ids at most. -/
theorem failed_step (h : draft.Consistent) {edit : Edit} {failure : Failure}
    (hrun : edit.run draft = .error failure after) :
    Step draft after ∧ after.page = draft.page := by
  obtain ⟨ids, hle, hstem, rfl⟩ := exists_of_failed h.linked h.keyed hrun
  exact ⟨⟨rfl, h.keyed, h.linked, hstem, hle, Or.inl, fun _ ha => ha⟩, rfl⟩

/-- An edit keeps the draft consistent also when it fails. -/
theorem after_step (h : draft.Consistent) {edit : Edit} (hedit : edit.AttachesTree) :
    Step draft (edit.after draft) := by
  unfold Edit.after
  cases hrun : edit.run draft with
  | ok effect after => exact run_step h hedit hrun
  | error failure after => exact (failed_step h hrun).1

/-- The induction is over the edits; the invariant carries the catalog along, since what it asks
of elements goes on to hold of the same catalog only. -/
theorem runAll_consistent {edits : List Edit} (h : draft.Consistent)
    (hedits : ∀ edit ∈ edits, edit.AttachesTree) :
    (draft.runAll edits).Consistent ∧ (draft.runAll edits).catalog = draft.catalog ∧
      ∀ {checkKinds}, draft.catalog.DefaultsKnown → Admits draft.catalog draft.page checkKinds →
        Admits draft.catalog (draft.runAll edits).page checkKinds := by
  induction edits generalizing draft with
  | nil => exact ⟨h, rfl, fun _ ha => ha⟩
  | cons edit rest ih =>
    obtain ⟨hedit, hrest⟩ := List.forall_mem_cons.1 hedits
    have hrun : draft.runAll (edit :: rest) = (edit.after draft).runAll rest := rfl
    rw [hrun]
    have hstep := after_step h hedit
    obtain ⟨hc, hcatalog, hadmits⟩ := ih (hstep.consistent h) hrest
    rw [hstep.catalog] at hcatalog hadmits
    exact ⟨hc, hcatalog, fun hd ha => hadmits hd (hstep.admits hd ha)⟩

/-- Copied elements that an edit attaches have been taken, at whatever time, from a draft whose
page was well formed. -/
def Edit.AttachesCopy : Edit → Prop
  | .attach _ nodes _ => ∃ source : Draft, source.page.WellFormed source.catalog ∧
      ∃ id, source.copy id = .ok nodes
  | _ => True

theorem Edit.AttachesCopy.attachesTree {edit : Edit} (h : edit.AttachesCopy) :
    edit.AttachesTree := by
  cases edit with
  | attach parent nodes index =>
    obtain ⟨source, hsource, id, hcopy⟩ := h
    exact copy_detached hsource.isTree.linked hsource.keyed hcopy
  | _ => trivial

/-- From a page that is empty or well formed every run of edits, turned down ones included, passes
through well-formed pages only: after each of them the check of the structure finds nothing, and
nothing about kinds either if it found nothing about them at the start. -/
theorem wellFormed_runAll {catalog : Catalog} {ids : IdSource} {page : Page} {edits : List Edit}
    (hdefaults : catalog.orBuiltIn.DefaultsKnown) (hids : 0 ≤ ids.next)
    (hpage : page.WellFormed catalog.orBuiltIn)
    (hdraft : Draft.ofPage catalog ids page = .ok draft)
    (hedits : ∀ edit ∈ edits, edit.AttachesCopy) (n : Nat) :
    let after := (draft.runAll (edits.take n)).page
    after.WellFormed catalog.orBuiltIn ∧ after.problems catalog.orBuiltIn false = [] ∧
      (page.problems catalog.orBuiltIn true = [] →
        after.problems catalog.orBuiltIn true = []) := by
  intro after
  obtain ⟨hcatalog, hsame, -, hc⟩ :=
    ofPage_consistent hids hpage.keyed hpage.isTree.linked hdraft
  obtain ⟨hafter, -, hadmits⟩ := @runAll_consistent _ (edits.take n) hc fun edit hm =>
    (hedits edit (List.mem_of_mem_take hm)).attachesTree
  rw [hcatalog, hsame] at hadmits
  have htree : after.IsTree := hafter.linked.isTree
  have hwell : after.WellFormed catalog.orBuiltIn :=
    ⟨hafter.keyed, htree, hadmits hdefaults hpage.admitted⟩
  exact ⟨hwell, problems_eq_nil_iff.2 ⟨htree, hwell.admitted⟩, fun hkinds =>
    problems_eq_nil_iff.2 ⟨htree, hadmits hdefaults (problems_eq_nil_iff.1 hkinds).2⟩⟩

/-- A page with a copy of itself attached and a move that is turned down. -/
theorem wellFormed_runAll_pair :
    let draft : Draft := ⟨.builtIn, { next := 3 }, pair⟩
    let edits : List Edit := [
      .move "el_1" "el_2" none,
      .attach (some "el_1") [⟨"el_2", "text", .empty, .empty, [], none⟩] (some 0),
      .remove "el_2"]
    (draft.runAll (edits.take 2)).page.WellFormed .builtIn ∧
      (draft.runAll (edits.take 2)).page.problems .builtIn true = [] := by
  intro draft edits
  have hcopy : draft.copy "el_2" = .ok [⟨"el_2", "text", .empty, .empty, [], none⟩] := by
    decide +kernel
  have hrun := @wellFormed_runAll draft .builtIn {} pair edits
    Catalog.builtIn_defaultsKnown (by decide) pair_wellFormed (by decide +kernel)
    (by simpa [edits, Edit.AttachesCopy] using ⟨draft, pair_wellFormed, _, hcopy⟩) 2
  exact ⟨hrun.1, hrun.2.2 (by decide +kernel)⟩

end Draft

end PageBuilder
