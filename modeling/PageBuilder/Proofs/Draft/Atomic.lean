import PageBuilder.Proofs.Draft.Edits
import PageBuilder.Proofs.Draft.Growth

/-!
# Edits are carried out or turned down

On a page that is a tree no edit fails half way.  Whatever ids, kinds, positions, props, style
attributes and copied elements it is given, it is carried out, or it is turned down and the draft,
the source of its ids included, is what it was.  Mostly it is turned down with a reason that has to
do with the edit; but an edit may also want a text that is not to be had (`Edit.LacksText`), and
then there is no reason but that.  A copy for which the ids do not last is a case of its own: the
page is what it was, and the ids that could still be drawn are gone (`Edit.Stalls`).
-/

namespace PageBuilder.Draft

open Page

variable {draft : Draft}

theorem TurnedDown.map {α β : Type} {unwritten wider : TextFault → Prop} {action : Action α}
    (h : TurnedDown unwritten action draft) (himp : ∀ fault, unwritten fault → wider fault)
    (f : α → β) : TurnedDown wider (f <$> action) draft := by
  rcases h with ⟨reason, h, hr⟩ | ⟨fault, h, hf⟩
  · exact Or.inl ⟨reason, Results.map_of_error h f, hr⟩
  · exact Or.inr ⟨fault, Results.map_of_error h f, himp fault hf⟩

/-- An edit runs out of ids: those that could be drawn have been. -/
def Edit.Stalls (draft : Draft) (edit : Edit) : Prop :=
  ∃ ids, draft.ids.exhausted? edit.draws = some ids ∧
    edit.run draft = .error (.noText .longInteger) { draft with ids := ids }

/-- An edit that is carried out answers something; else it is turned down, or it has run out of
ids. -/
theorem run_cases (hl : draft.page.Linked) (hk : draft.page.Keyed) (edit : Edit) :
    TurnedDown (fun fault => edit.LacksText draft fault) edit.run draft ∨ edit.Stalls draft ∨
      ∃ effect after, edit.run draft = .ok effect after := by
  cases edit with
  | insert parent kind index props style =>
    rcases insert_cases draft parent kind index props style with
      hno | ⟨component, kept, -, -, -, -, h⟩
    · exact Or.inl (hno.map (fun _ h => h) _)
    · exact Or.inr (Or.inr ⟨_, _, Results.map_of_ok h _⟩)
  | move id target index =>
    rcases move_cases hl id target index with hno | ⟨old, host, after, h, -⟩
    · exact Or.inl (hno.map (fun _ => False.elim) _)
    · exact Or.inr (Or.inr ⟨_, _, Results.map_of_ok h _⟩)
  | updateProps id props =>
    rcases updateProps_cases draft id props with hno | ⟨-, h⟩
    · exact Or.inl (hno.map (fun _ h => h) _)
    · exact Or.inr (Or.inr ⟨_, _, Results.map_of_ok h _⟩)
  | updateStyle id style =>
    rcases updateStyle_cases draft id style with hno | ⟨-, kept, -, h⟩
    · exact Or.inl (hno.map (fun _ h => h) _)
    · exact Or.inr (Or.inr ⟨_, _, Results.map_of_ok h _⟩)
  | remove id =>
    rcases remove_cases hl hk id with hno | ⟨ids, old, after, h, -⟩
    · exact Or.inl (hno.map (fun _ => False.elim) _)
    · exact Or.inr (Or.inr ⟨_, _, Results.map_of_ok h _⟩)
  | clear => exact Or.inr (Or.inr ⟨_, _, rfl⟩)
  | attach parent nodes index =>
    rcases attach_cases draft parent nodes index with hno | ⟨ids, hids, h⟩ | ⟨-, -, -, h⟩
    · exact Or.inl (hno.map (fun _ h => h) _)
    · exact Or.inr (Or.inl ⟨ids, hids, Results.map_of_error h _⟩)
    · exact Or.inr (Or.inr ⟨_, _, Results.map_of_ok h _⟩)

/-- An edit of a tree that fails has moved the source of ids at most. -/
theorem exists_of_failed (hl : draft.page.Linked) (hk : draft.page.Keyed) {edit : Edit}
    {failure : Failure} {after : Draft} (h : edit.run draft = .error failure after) :
    ∃ ids, draft.ids.next ≤ ids.next ∧ ids.stem = draft.ids.stem ∧
      after = { draft with ids := ids } := by
  rcases run_cases hl hk edit with
    (⟨reason, hno, -⟩ | ⟨fault, hno, -⟩) | ⟨ids, hids, hno⟩ | ⟨effect, other, hok⟩
  · cases hno.symm.trans h
    exact ⟨draft.ids, Int.le_refl _, rfl, rfl⟩
  · cases hno.symm.trans h
    exact ⟨draft.ids, Int.le_refl _, rfl, rfl⟩
  · cases hno.symm.trans h
    obtain ⟨i, -, rfl, -⟩ := IdSource.exhausted?_eq_some hids
    exact ⟨{ draft.ids with next := draft.ids.next + i },
      Int.le_add_of_nonneg_right (Int.natCast_nonneg i), rfl, rfl⟩
  · cases hok.symm.trans h

end PageBuilder.Draft
