/-!
# Character classes given by code point ranges

A class of characters is a list of closed ranges of code points; `within` is membership.
-/

namespace PageBuilder.Text

/-- Whether the code point of `c` lies in one of the closed ranges. -/
def within (ranges : List (Nat × Nat)) (c : Char) : Bool :=
  ranges.any fun range => range.1 ≤ c.toNat && c.toNat ≤ range.2

theorem within_iff {ranges : List (Nat × Nat)} {c : Char} :
    within ranges c = true ↔ ∃ r ∈ ranges, r.1 ≤ c.toNat ∧ c.toNat ≤ r.2 := by
  simp [within, List.any_eq_true]

end PageBuilder.Text
