import PageBuilder.Draft.Script
import PageBuilder.Proofs.Results

/-!
# What an edit comes to

`Outcome` lists everything an edit can come to, on a page of whatever shape: it is turned down by
its checks, it is carried out, it is a removal that stops half-way, or a copy for which the ids do
not last.  With every outcome come the checks that have been passed.  `Edit.run_outcome` says that
there is nothing else, so what an edit keeps is proved by one case for each kind of outcome.
-/

namespace PageBuilder.Draft

open Results

variable {draft : Draft}

/-- How an edit can end. -/
inductive Outcome (draft : Draft) : Edit → EStateM.Result Failure Draft Effect → Prop
  /-- A check has failed. -/
  | declined (edit : Edit) (failure : Failure) : Outcome draft edit (.error failure draft)
  | inserted {parent : Option String} {kind : String} {index : Option Int}
      {props style : OrderedMap Value} {e : Element}
      (hplan : draft.planInsert parent kind props style = .ok e) :
      Outcome draft (.insert parent kind index props style)
        (.ok (.added (draft.place e index).1) (draft.place e index).2)
  | moved {id target old : String} {index : Option Int}
      (hplan : draft.planMove id target = .ok old) :
      Outcome draft (.move id target index)
        (.ok .changed { draft with page := rehang draft.page id old target index })
  | propsSet {id : String} {props : OrderedMap Value} (hprops : checkProps props = .ok ()) :
      Outcome draft (.updateProps id props) (.ok .changed { draft with
        page := draft.page.modify id fun e => { e with props := overlay e.props props } })
  | styleSet {id : String} {style kept : OrderedMap Value} (hstyle : checkStyle style = .ok kept) :
      Outcome draft (.updateStyle id style) (.ok .changed { draft with
        page := draft.page.modify id fun e => { e with style := overlay e.style kept } })
  | removed {id : String} {removal : Removal} (hplan : draft.planRemove id = .ok removal) :
      Outcome draft (.remove id) (.ok (.removed removal.ids) { draft with
        page := removal.ids.foldl Page.delete (draft.page.dropChild removal.parent id) })
  /-- A removal that has met an element which is not there. -/
  | halted {id : String} {removal : Removal} {gone : List String} {failure : Failure}
      (hplan : draft.planRemove id = .ok removal) (hgone : gone <+: removal.ids) :
      Outcome draft (.remove id) (.error failure { draft with
        page := gone.foldl Page.delete (draft.page.dropChild removal.parent id) })
  | cleared : Outcome draft .clear
      (.ok (.removed draft.page.elements.keys) { draft with page := {} })
  | attached {parent : Option String} {nodes : List Element} {index : Option Int}
      (hplan : draft.planAttach parent nodes = .ok ())
      (hids : draft.ids.exhausted? nodes.length = none) :
      Outcome draft (.attach parent nodes index)
        (.ok (.added (draft.placeCopy parent nodes index).1)
          (draft.placeCopy parent nodes index).2)
  /-- A copy that has run out of ids. -/
  | stalled {parent : Option String} {nodes : List Element} {index : Option Int} {ids : IdSource}
      (hplan : draft.planAttach parent nodes = .ok ())
      (hids : draft.ids.exhausted? nodes.length = some ids) :
      Outcome draft (.attach parent nodes index)
        (.error (.noText .longInteger) { draft with ids := ids })

/-- The checks that an insertion has passed, and the element they leave to be placed. -/
theorem exists_of_planInsert {parent : Option String} {kind : String}
    {props style : OrderedMap Value} {e : Element}
    (h : draft.planInsert parent kind props style = .ok e) :
    ∃ component kept, draft.catalog.require kind none = .ok component ∧
      draft.checkHost parent = .ok () ∧ checkProps props = .ok () ∧ checkStyle style = .ok kept ∧
      draft.ids.exhausted? 1 = none ∧
      e = ⟨"", kind, overlay component.props props, overlay component.style kept, [], parent⟩ := by
  obtain ⟨component, hkind, h⟩ := exists_of_bind h
  obtain ⟨⟨⟩, hhost, h⟩ := exists_of_bind h
  obtain ⟨⟨⟩, hprops, h⟩ := exists_of_bind h
  obtain ⟨kept, hstyle, h⟩ := exists_of_bind h
  cases hids : draft.ids.exhausted? 1 with
  | none =>
    rw [hids] at h
    cases h
    exact ⟨component, kept, hkind, hhost, hprops, hstyle, rfl, rfl⟩
  | some ids =>
    rw [hids] at h
    cases h

/-- Elements are deleted one after the other, perhaps not all of them. -/
theorem deleteAll_cases (ids : List String) (draft : Draft) :
    deleteAll ids draft = .ok () { draft with page := ids.foldl Page.delete draft.page } ∨
      ∃ gone failure, gone <+: ids ∧ deleteAll ids draft =
        .error failure { draft with page := gone.foldl Page.delete draft.page } := by
  -- Each deletion is made on what the ones before it have left.
  induction ids generalizing draft with
  | nil => exact Or.inl rfl
  | cons id rest ih =>
    by_cases hc : draft.page.contains id = true
    · rw [deleteAll, if_pos hc]
      apply (ih { draft with page := draft.page.delete id }).imp_right
      rintro ⟨gone, failure, hgone, h⟩
      exact ⟨id :: gone, failure, List.cons_prefix_cons.2 ⟨rfl, hgone⟩, h⟩
    · rw [deleteAll, if_neg hc]
      exact Or.inr ⟨[], .missingElement id, List.nil_prefix, rfl⟩

section Parts

variable {α : Type} {edit : Edit} {action : Action α} {effect : α → Effect}

theorem outcome_declined {failure : Failure} (h : action draft = .error failure draft) :
    Outcome draft edit ((effect <$> action) draft) := by
  rw [map_of_error h]
  exact .declined edit failure

theorem outcome_carried {a : α} {after : Draft} (h : action draft = .ok a after)
    (houtcome : Outcome draft edit (.ok (effect a) after)) :
    Outcome draft edit ((effect <$> action) draft) := by
  rw [map_of_ok h]
  exact houtcome

end Parts

theorem outcome_remove (draft : Draft) (id : String) :
    Outcome draft (.remove id) ((Edit.remove id).run draft) := by
  rw [Edit.run]
  cases hplan : draft.planRemove id with
  | error failure => exact outcome_declined (by rw [Draft.remove, hplan])
  | ok removal =>
    let dropped : Draft := { draft with page := draft.page.dropChild removal.parent id }
    rcases deleteAll_cases removal.ids dropped with hdelete | ⟨gone, failure, hgone, hdelete⟩
    · exact outcome_carried (by simp only [Draft.remove, hplan, hdelete, dropped])
        (.removed hplan)
    · have hno : Draft.remove id draft = .error failure
          { dropped with page := gone.foldl Page.delete dropped.page } := by
        simp only [Draft.remove, hplan, hdelete, dropped]
      rw [map_of_error hno]
      exact .halted hplan hgone

/-- Every edit comes to one of the outcomes.  What follows of edits is read off from here. -/
theorem Edit.run_outcome (edit : Edit) (draft : Draft) : Outcome draft edit (edit.run draft) := by
  cases edit with
  | insert parent kind index props style =>
    rw [Edit.run]
    cases hplan : draft.planInsert parent kind props style with
    | error failure => exact outcome_declined (by rw [Draft.insert, hplan])
    | ok e => exact outcome_carried (by rw [Draft.insert, hplan]) (.inserted hplan)
  | move id target index =>
    rw [Edit.run]
    cases hplan : draft.planMove id target with
    | error failure => exact outcome_declined (by rw [Draft.move, hplan])
    | ok old => exact outcome_carried (by rw [Draft.move, hplan]) (.moved hplan)
  | updateProps id props =>
    rw [Edit.run]
    cases hrequire : draft.page.require id with
    | error failure => exact outcome_declined (by rw [Draft.updateProps, hrequire])
    | ok e =>
      cases hprops : checkProps props with
      | error failure => exact outcome_declined (by rw [Draft.updateProps, hrequire, hprops])
      | ok =>
        exact outcome_carried (by rw [Draft.updateProps, hrequire, hprops]) (.propsSet hprops)
  | updateStyle id style =>
    rw [Edit.run]
    cases hrequire : draft.page.require id with
    | error failure => exact outcome_declined (by rw [Draft.updateStyle, hrequire])
    | ok e =>
      cases hstyle : checkStyle style with
      | error failure => exact outcome_declined (by rw [Draft.updateStyle, hrequire, hstyle])
      | ok kept =>
        exact outcome_carried (by rw [Draft.updateStyle, hrequire, hstyle]) (.styleSet hstyle)
  | remove id => exact outcome_remove draft id
  | clear => exact .cleared
  | attach parent nodes index =>
    rw [Edit.run]
    cases hplan : draft.planAttach parent nodes with
    | error failure => exact outcome_declined (by rw [Draft.attach, hplan])
    | ok =>
      cases hids : draft.ids.exhausted? nodes.length with
      | none =>
        exact outcome_carried (by simp only [Draft.attach, hplan, hids]) (.attached hplan hids)
      -- Here alone the draft has moved though the edit has failed.
      | some ids =>
        have hno : Draft.attach parent nodes index draft =
            .error (.noText .longInteger) { draft with ids := ids } := by
          simp only [Draft.attach, hplan, hids]
        rw [map_of_error hno]
        exact .stalled hplan hids

end PageBuilder.Draft
