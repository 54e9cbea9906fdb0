import PageBuilder.Proofs.Draft.Edits
import PageBuilder.Proofs.Draft.Outcomes

/-!
# Edits and the catalog of their draft

Three edits ask what a kind is: an insertion, a move and the attaching of a copy.  Each of them is
carried out exactly if what it is given fits together, the ids last, and the catalog of the draft
says of the kinds that they are known, and that they hold children where children are put.  `Heeds`
says so of a given catalog, and a draft heeds its own (`heeds_catalog`); edits never change which
that is (`catalog_runAll`).
-/

namespace PageBuilder

open Results

/-- A place for new elements by a catalog: the root of an empty page, or below an element of a kind
that the catalog says holds children. -/
def Page.Hosts (catalog : Catalog) (page : Page) : Option String → Prop
  | none => page.root = none
  | some id => ∃ host, page.get? id = some host ∧ catalog.isContainer host.kind = true

/-- A copied element that a catalog lets attach beside others. -/
structure Element.Attachable (catalog : Catalog) (ids : List String) (node : Element) : Prop where
  kind_known : catalog.contains node.kind = true
  holds_children : node.children ≠ [] → catalog.isContainer node.kind = true
  children_copied : ∀ child ∈ node.children, child ∈ ids
  style_checked : ∃ kept, Style.check node.style = .ok kept

namespace Draft

variable {draft after : Draft} {catalog : Catalog}

/-! ## What the checks ask for -/

theorem checkHost_eq_ok_iff {parent : Option String} :
    draft.checkHost parent = .ok () ↔ draft.page.Hosts draft.catalog parent := by
  cases parent with
  | none =>
    unfold checkHost Page.Hosts
    cases draft.page.root <;> simp
  | some id =>
    unfold checkHost Page.Hosts
    cases hhost : draft.page.get? id with
    | none => simp [hhost]
    | some host => cases hc : draft.catalog.isContainer host.kind <;> simp [hhost, hc]

theorem planInsert_accepts_iff {parent : Option String} {kind : String}
    {props style : OrderedMap Value} :
    (∃ e, draft.planInsert parent kind props style = .ok e) ↔
      draft.catalog.contains kind = true ∧ draft.page.Hosts draft.catalog parent ∧
        Props.check props = .ok () ∧ (∃ kept, Style.check style = .ok kept) ∧
        draft.ids.exhausted? 1 = none := by
  rw [Catalog.contains_iff_get?, ← checkHost_eq_ok_iff, ← checkProps_eq_ok_iff]
  simp only [← checkStyle_eq_ok_iff, ← @Catalog.require_eq_ok_iff _ kind none]
  constructor
  · rintro ⟨e, h⟩
    obtain ⟨component, kept, hcomponent, hhost, hprops, hkept, hids, -⟩ := exists_of_planInsert h
    exact ⟨⟨component, hcomponent⟩, hhost, hprops, ⟨kept, hkept⟩, hids⟩
  · rintro ⟨⟨component, hcomponent⟩, hhost, hprops, ⟨kept, hkept⟩, hids⟩
    rw [planInsert, hcomponent, hhost, hprops, hkept, hids]
    exact ⟨_, rfl⟩

theorem checkCopied_eq_ok_iff {ids : List String} {node : Element} :
    draft.checkCopied ids node = .ok () ↔ node.Attachable draft.catalog ids := by
  have hstyle : discard (checkStyle node.style) = .ok ⟨⟩ ↔
      ∃ kept, Style.check node.style = .ok kept := by
    simp only [← checkStyle_eq_ok_iff]
    cases checkStyle node.style <;> simp
  constructor
  · intro h
    rcases checkCopied_cases draft ids node with hno | ⟨hnode, -⟩
    · exact absurd h hno.ne_ok
    · obtain ⟨component, hc⟩ := Catalog.contains_iff_get?.1 hnode.kind_known
      rw [checkCopied_eq (Catalog.require_eq_ok_iff.2 hc) hnode.holds_children
        hnode.children_copied] at h
      exact ⟨hnode.kind_known, hnode.holds_children, hnode.children_copied, hstyle.1 h⟩
  · intro h
    obtain ⟨component, hc⟩ := Catalog.contains_iff_get?.1 h.kind_known
    rw [checkCopied_eq (Catalog.require_eq_ok_iff.2 hc) h.holds_children h.children_copied]
    exact hstyle.2 h.style_checked

theorem checkAllCopied_eq_ok_iff {ids : List String} {nodes : List Element} :
    draft.checkAllCopied ids nodes = .ok () ↔
      ∀ node ∈ nodes, node.Attachable draft.catalog ids := by
  induction nodes with
  | nil => simp [checkAllCopied]
  | cons node rest ih =>
    rw [checkAllCopied, List.forall_mem_cons, ← checkCopied_eq_ok_iff, ← ih]
    cases draft.checkCopied ids node <;> simp

theorem planAttach_eq_ok_iff {parent : Option String} {nodes : List Element} :
    draft.planAttach parent nodes = .ok () ↔ nodes ≠ [] ∧
      (∀ node ∈ nodes, node.Attachable draft.catalog (nodes.map Element.id)) ∧
        draft.page.Hosts draft.catalog parent := by
  rw [← checkAllCopied_eq_ok_iff, ← checkHost_eq_ok_iff, planAttach]
  cases nodes with
  | nil => simp
  | cons node rest =>
    cases draft.checkAllCopied ((node :: rest).map Element.id) (node :: rest) <;> simp

/-- On a tree a move fails for no other reason than that it is none, or that the new parent holds no
children. -/
theorem planMove_accepts_iff (hl : draft.page.Linked) {id target : String} :
    (∃ old, draft.planMove id target = .ok old) ↔
      draft.page.contains id = true ∧ draft.page.root ≠ some id ∧ ¬ draft.page.Reaches id target ∧
        ∃ host, draft.page.get? target = some host ∧
          draft.catalog.isContainer host.kind = true := by
  constructor
  · rintro ⟨old, h⟩
    rcases planMove_cases hl id target with hno | ⟨e, _, host, he, hlist, hhost, hbelow, hc, -⟩
    · exact absurd h hno.ne_ok
    · refine ⟨Page.contains_iff_get?.2 ⟨e, he⟩, fun hroot => ?_, hbelow, host, hhost, hc⟩
      obtain ⟨r, hr, hnone⟩ := hl.root_stored hroot
      exact absurd (hnone.symm.trans (hl.parent_of_lists hlist hr)) (by simp)
  · rintro ⟨hid, hroot, hbelow, host, hhost, hc⟩
    obtain ⟨e, he⟩ := Page.contains_iff_get?.1 hid
    obtain ⟨above, habove, hmem⟩ := hl.ancestors_eq hhost
    obtain ⟨old, hold⟩ := exists_parent hl he hroot
    obtain ⟨oldHost, hfetch, -, hm⟩ := fetchParent_eq hl he hold
    have hself : target ≠ id := fun heq => hbelow (heq ▸ .refl)
    have hin : id ∉ above := fun hm => hbelow ((hmem id).1 hm).2
    refine ⟨old, ?_⟩
    simp [planMove, Page.require, he, hroot, hhost, hself, habove, hin, hc, hfetch, hm]

/-! ## Edits -/

/-- An edit is carried out. -/
def Accepts {α : Type} (draft : Draft) (action : Action α) : Prop :=
  ∃ a after, action draft = .ok a after

/-- What a draft decides about kinds it decides by a catalog. -/
structure Heeds (catalog : Catalog) (draft : Draft) : Prop where
  insert_unknown : ∀ {kind}, catalog.contains kind = false → ∀ parent index props style,
    Draft.insert parent kind index props style draft =
      .error (.rejected (.unknownKind kind none)) draft
  insert : ∀ {parent kind index props style},
    draft.Accepts (Draft.insert parent kind index props style) ↔
      catalog.contains kind = true ∧ draft.page.Hosts catalog parent ∧
        Props.check props = .ok () ∧ (∃ kept, Style.check style = .ok kept) ∧
        draft.ids.exhausted? 1 = none
  attach : ∀ {parent nodes index}, draft.Accepts (Draft.attach parent nodes index) ↔
    nodes ≠ [] ∧ (∀ node ∈ nodes, node.Attachable catalog (nodes.map Element.id)) ∧
      draft.page.Hosts catalog parent ∧ draft.ids.exhausted? nodes.length = none
  move : draft.page.Linked → ∀ {id target index}, draft.Accepts (Draft.move id target index) ↔
    draft.page.contains id = true ∧ draft.page.root ≠ some id ∧ ¬ draft.page.Reaches id target ∧
      ∃ host, draft.page.get? target = some host ∧ catalog.isContainer host.kind = true

theorem heeds_catalog (draft : Draft) : Heeds draft.catalog draft where
  insert_unknown := by
    intro kind hkind parent index props style
    rw [Draft.insert, planInsert, Catalog.require_unknown hkind]
    rfl
  insert := by
    intro parent kind index props style
    rw [← planInsert_accepts_iff, Accepts]
    unfold Draft.insert
    cases draft.planInsert parent kind props style <;> simp
  attach := by
    intro parent nodes index
    have hiff : draft.Accepts (Draft.attach parent nodes index) ↔
        draft.planAttach parent nodes = .ok () ∧ draft.ids.exhausted? nodes.length = none := by
      unfold Accepts Draft.attach
      cases draft.planAttach parent nodes with
      | error failure => simp
      | ok => cases draft.ids.exhausted? nodes.length <;> simp
    rw [hiff, planAttach_eq_ok_iff, and_assoc, and_assoc]
  move := by
    intro hl id target index
    rw [← planMove_accepts_iff hl, Accepts]
    unfold Draft.move
    cases draft.planMove id target <;> simp

/-! ## No edit changes the catalog -/

theorem Edit.catalog_run (edit : Edit) (draft : Draft) :
    (stateOf (edit.run draft)).catalog = draft.catalog := by
  have houtcome := edit.run_outcome draft
  generalize edit.run draft = result at houtcome ⊢
  cases houtcome <;> rfl

theorem Edit.catalog_after (edit : Edit) (draft : Draft) :
    (edit.after draft).catalog = draft.catalog := by
  have hrun := edit.catalog_run draft
  unfold Edit.after
  split
  all_goals
    rename_i h
    rw [h] at hrun
    exact hrun

theorem catalog_runAll (draft : Draft) (edits : List Edit) :
    (draft.runAll edits).catalog = draft.catalog := by
  induction edits generalizing draft with
  | nil => rfl
  | cons edit rest ih =>
    rw [runAll, List.foldl_cons]
    exact (ih _).trans (edit.catalog_after draft)

end Draft

end PageBuilder
