import Mathlib.Data.List.Nodup
import Mathlib.Tactic.ByContra

/-!
# Texts in increasing order

A sorted list of texts without repetitions is strictly increasing, by code points, and there is one
such list of given members.
-/

namespace PageBuilder.Text

variable {xs ys : List String}

theorem pairwise_le_mergeSort (xs : List String) : xs.mergeSort.Pairwise (· ≤ ·) := by
  have hpairwise : xs.mergeSort.Pairwise fun a b => decide (a ≤ b) = true := by
    apply List.pairwise_mergeSort
    · intro a b c hab hbc
      exact decide_eq_true (String.le_trans (of_decide_eq_true hab) (of_decide_eq_true hbc))
    · intro a b
      simpa using String.le_total a b
  exact hpairwise.imp of_decide_eq_true

theorem pairwise_lt_mergeSort (h : xs.Nodup) : xs.mergeSort.Pairwise (· < ·) := by
  have hne : xs.mergeSort.Pairwise (· ≠ ·) := (List.mergeSort_perm xs _).nodup_iff.2 h
  have hlt : ∀ a b : String, a ≤ b → a ≠ b → a < b := by
    intro a b hle hab
    by_contra hlt
    exact hab (String.le_antisymm hle (String.not_lt.1 hlt))
  exact (pairwise_le_mergeSort xs).imp₂ hlt hne

/-- The code points of a text. -/
def codePoints (s : String) : List Nat :=
  s.toList.map Char.toNat

/-- Texts are ordered by their code points. -/
theorem codePoints_lt {a b : String} (h : a < b) : codePoints a < codePoints b :=
  List.map_lt (fun _ _ hlt => hlt) (show a.toList < b.toList from h)

/-- What is in increasing order is settled by its members. -/
theorem eq_of_increasing (hxs : xs.Pairwise fun a b => codePoints a < codePoints b)
    (hys : ys.Pairwise fun a b => codePoints a < codePoints b)
    (hmem : ∀ s, s ∈ xs ↔ s ∈ ys) : xs = ys := by
  have hne : ∀ {a b : String}, codePoints a < codePoints b → a ≠ b := by
    rintro a _ hlt rfl
    exact List.lt_irrefl _ hlt
  have hperm : xs.Perm ys := (List.perm_ext_iff_of_nodup (hxs.imp hne) (hys.imp hne)).2 hmem
  exact hperm.eq_of_pairwise (fun _ _ _ _ hab hba => absurd hab (List.lt_asymm hba)) hxs hys

/-! ## Without repetitions -/

theorem nodup_eraseDups (names : List String) : names.eraseDups.Nodup := by
  induction hn : names.length using Nat.strongRecOn generalizing names with
  | _ n ih =>
    cases names with
    | nil => simp
    | cons name rest =>
      have hshorter : (rest.filter fun other => !other == name).length < n := by
        rw [← hn, List.length_cons]
        exact Nat.lt_succ_of_le (List.length_filter_le _ _)
      rw [List.eraseDups_cons, List.nodup_cons]
      exact ⟨by simp, ih _ hshorter _ rfl⟩

end PageBuilder.Text
