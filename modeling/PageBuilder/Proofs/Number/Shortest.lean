import PageBuilder.Number.Decimal
import PageBuilder.Proofs.Number.Rounding

/-!
# The decimal written for a double reads back

The writer tests its candidates with the reader, so a candidate that is found needs no proof: what
is left is that dropping trailing zeros keeps the value, and that the exact decimal, written if no
candidate passes, is in range and read exactly.
-/

namespace PageBuilder.Double

/-! ## Digit counts -/

theorem digitCount_pos (n : Nat) : 0 < digitCount n :=
  Nat.length_toDigits_pos

theorem lt_pow_digitCount (n : Nat) : n < 10 ^ digitCount n :=
  (Nat.length_toDigits_le_iff (by decide) (digitCount_pos n)).1 (Nat.le_refl _)

theorem pow_digitCount_le {n : Nat} (hn : n ≠ 0) : 10 ^ (digitCount n - 1) ≤ n := by
  by_cases hone : digitCount n = 1
  · rw [hone]
    exact Nat.pos_of_ne_zero hn
  · have hpos := digitCount_pos n
    by_contra hlt
    have hle := (Nat.length_toDigits_le_iff (b := 10) (by decide) (by omega)).2
      (Nat.lt_of_not_le hlt)
    have : digitCount n ≤ digitCount n - 1 := hle
    omega

theorem digitCount_mul_ten {n : Nat} (hn : n ≠ 0) : digitCount (n * 10) = digitCount n + 1 := by
  have happend := Nat.toDigits_append_toDigits (b := 10) (n := n) (d := 0) (by decide)
    (Nat.pos_of_ne_zero hn) (by decide)
  rw [Nat.add_zero, Nat.mul_comm] at happend
  rw [digitCount, ← happend, List.length_append]
  rfl

/-! ## Values of decimals -/

theorem ratio_den_pos (d : Decimal) : 0 < d.ratio.2 := by
  obtain ⟨n, e⟩ := d
  cases e with
  | ofNat k => exact Nat.one_pos
  | negSucc k => exact Nat.pow_pos (by decide)

theorem ratio_value (d : Decimal) :
    (d.ratio.1 : ℚ) / d.ratio.2 = d.digits * 10 ^ d.exponent := by
  obtain ⟨n, e⟩ := d
  cases e with
  | ofNat k => simp [Decimal.ratio]
  | negSucc k => simp [Decimal.ratio, zpow_negSucc, div_eq_mul_inv]

/-- Digits and exponent bound the value of a decimal. -/
theorem value_bounds {n : Nat} (hn : n ≠ 0) (e : Int) :
    (10 : ℚ) ^ (digitCount n + e - 1) ≤ n * 10 ^ e ∧
      (n : ℚ) * 10 ^ e < 10 ^ (digitCount n + e) := by
  have hpos := digitCount_pos n
  have hten : (0 : ℚ) < 10 ^ e := by positivity
  constructor
  · have hlow : (10 : ℚ) ^ (digitCount n - 1) ≤ n := by exact_mod_cast pow_digitCount_le hn
    rw [show (digitCount n : Int) + e - 1 = ((digitCount n - 1 : Nat) : Int) + e by omega,
      zpow_add₀ (by norm_num), zpow_natCast]
    exact mul_le_mul_of_nonneg_right hlow hten.le
  · have hhigh : (n : ℚ) < 10 ^ digitCount n := by exact_mod_cast lt_pow_digitCount n
    rw [zpow_add₀ (by norm_num), zpow_natCast]
    exact mul_lt_mul_of_pos_right hhigh hten

/-! ## Reading decimals of one value -/

variable {negative : Bool}

/-- Within the powers tested first a decimal is read as its fraction. -/
theorem ofDecimal_eq_ofRatio {n : Nat} {e : Int} (hn : n ≠ 0) (hlow : -330 ≤ digitCount n + e)
    (hhigh : digitCount n + e ≤ 310) :
    ofDecimal negative n e =
      ofRatio negative (Decimal.ratio ⟨n, e⟩).1 (Decimal.ratio ⟨n, e⟩).2 := by
  unfold ofDecimal
  rw [if_neg hn]
  dsimp only
  rw [if_neg (by omega), if_neg (by omega)]
  cases e <;> rfl

theorem ofDecimal_mul_ten (n : Nat) (e : Int) :
    ofDecimal negative (n * 10) e = ofDecimal negative n (e + 1) := by
  by_cases hn : n = 0
  · simp [hn, ofDecimal]
  · have hcount : (digitCount (n * 10) : Int) + e = digitCount n + (e + 1) := by
      rw [digitCount_mul_ten hn]
      omega
    have hn10 : n * 10 ≠ 0 := by omega
    by_cases hrange : -330 ≤ (digitCount n : Int) + (e + 1) ∧ digitCount n + (e + 1) ≤ 310
    · rw [ofDecimal_eq_ofRatio hn10 (by omega) (by omega),
        ofDecimal_eq_ofRatio hn hrange.1 hrange.2]
      apply ofRatio_congr negative (ratio_den_pos _) (ratio_den_pos _)
      rw [ratio_value, ratio_value, zpow_add₀ (by norm_num)]
      push_cast
      ring
    -- Out of range both are infinite or both are zero.
    · simp only [ofDecimal, if_neg hn, if_neg hn10, hcount]
      split
      · rfl
      · rw [if_pos (by omega), if_pos (by omega)]

/-- Zeros at the end of the digits count as powers of ten. -/
theorem ofDecimal_mul_pow (n k : Nat) (e : Int) :
    ofDecimal negative (n * 10 ^ k) e = ofDecimal negative n (e + k) := by
  induction k generalizing e with
  | zero => simp
  | succ k ih =>
    rw [Nat.pow_succ, ← Nat.mul_assoc, ofDecimal_mul_ten, ih]
    congr 1
    omega

theorem ofDecimal_stripZeros (fuel : Nat) (d : Decimal) :
    ofDecimal negative (d.stripZeros fuel).digits (d.stripZeros fuel).exponent =
      ofDecimal negative d.digits d.exponent := by
  induction fuel generalizing d with
  | zero => rfl
  | succ fuel ih =>
    rw [Decimal.stripZeros]
    split
    · rename_i h
      simp only [Bool.and_eq_true, decide_eq_true_eq] at h
      rw [ih, ← ofDecimal_mul_ten, Nat.div_mul_cancel (Nat.dvd_of_mod_eq_zero h.2)]
    · rfl

theorem stripZeros_digits_ne_zero (fuel : Nat) {d : Decimal} (hd : d.digits ≠ 0) :
    (d.stripZeros fuel).digits ≠ 0 := by
  induction fuel generalizing d with
  | zero => exact hd
  | succ fuel ih =>
    rw [Decimal.stripZeros]
    split
    · rename_i h
      simp only [Bool.and_eq_true, decide_eq_true_eq] at h
      apply ih
      show d.digits / 10 ≠ 0
      omega
    · exact hd

/-! ## The decimals written -/

variable {m : Nat} {e : Int}

theorem exactDecimal_value (m : Nat) (e : Int) :
    ((exactDecimal m e).digits : ℚ) * 10 ^ (exactDecimal m e).exponent = m * 2 ^ e := by
  cases e with
  | ofNat k => simp [exactDecimal]
  | negSucc k =>
    have hten : (10 : ℚ) ^ (k + 1) = 5 ^ (k + 1) * 2 ^ (k + 1) := by
      rw [← mul_pow]
      norm_num
    simp only [exactDecimal, Nat.pow_eq, Nat.cast_mul, Nat.cast_pow, Nat.cast_ofNat, zpow_neg,
      zpow_natCast, zpow_negSucc, hten]
    field_simp

theorem exactDecimal_digits_ne_zero (hm : m ≠ 0) (e : Int) : (exactDecimal m e).digits ≠ 0 := by
  cases e <;> simp [exactDecimal, hm]

/-- Doubles lie well within the powers of ten tested first. -/
theorem value_range (hc : IsCanonical m e) (hm : m ≠ 0) :
    (10 : ℚ) ^ (-330 : Int) < m * 2 ^ e ∧ (m : ℚ) * 2 ^ e < 10 ^ (310 : Int) := by
  obtain ⟨hlt, hleast, hgreatest, -⟩ := hc
  have hone : (1 : ℚ) ≤ m := by exact_mod_cast Nat.one_le_iff_ne_zero.2 hm
  have hbits : (m : ℚ) < 2 ^ 53 := by exact_mod_cast hlt
  constructor
  · have hpowers : (2 : Nat) ^ 1074 < 10 ^ 330 := by decide +kernel
    have hleastValue : (10 : ℚ) ^ (-330 : Int) < 2 ^ (-1074 : Int) := by
      rw [zpow_neg, zpow_neg]
      apply inv_strictAnti₀ (by positivity)
      exact_mod_cast hpowers
    calc (10 : ℚ) ^ (-330 : Int) < 2 ^ (-1074 : Int) := hleastValue
      _ ≤ 2 ^ e := zpow_le_zpow_right₀ (by norm_num) hleast
      _ ≤ m * 2 ^ e := le_mul_of_one_le_left (by positivity) hone
  · have hpowers : (2 : Nat) ^ 53 * 2 ^ 971 < 10 ^ 310 := by decide +kernel
    calc (m : ℚ) * 2 ^ e < 2 ^ 53 * 2 ^ e := mul_lt_mul_of_pos_right hbits (by positivity)
      _ ≤ 2 ^ 53 * 2 ^ (971 : Int) := by
        have := zpow_le_zpow_right₀ (show (1 : ℚ) ≤ 2 by norm_num) hgreatest
        exact mul_le_mul_of_nonneg_left this (by positivity)
      _ < 10 ^ (310 : Int) := by exact_mod_cast hpowers

theorem ofDecimal_exactDecimal (hc : IsCanonical m e) (hm : m ≠ 0) :
    ofDecimal negative (exactDecimal m e).digits (exactDecimal m e).exponent =
      .finite negative m e hc := by
  have hdigits := exactDecimal_digits_ne_zero hm e
  have hvalue := exactDecimal_value m e
  obtain ⟨hlow, hhigh⟩ := value_bounds hdigits (exactDecimal m e).exponent
  obtain ⟨hleast, hgreatest⟩ := value_range hc hm
  rw [hvalue] at hlow hhigh
  have h1 := (zpow_lt_zpow_iff_right₀ (by norm_num)).1 (hleast.trans hhigh)
  have h2 := (zpow_lt_zpow_iff_right₀ (by norm_num)).1 (hlow.trans_lt hgreatest)
  rw [ofDecimal_eq_ofRatio hdigits (by omega) (by omega)]
  apply ofRatio_exact negative hc hm (ratio_den_pos _)
  rw [ratio_value]
  exact hvalue

/-- Whatever decimal is written for a double, the reader answers that double. -/
theorem ofDecimal_shortest (negative : Bool) (hc : IsCanonical m e) (hm : m ≠ 0) :
    (shortest negative m e).digits ≠ 0 ∧
      ofDecimal negative (shortest negative m e).digits (shortest negative m e).exponent =
        .finite negative m e hc := by
  have hthis : ofParts negative m e = .finite negative m e hc := dif_pos hc
  unfold shortest
  dsimp only
  split
  · rename_i d hfind
    have hread : ofDecimal negative d.digits d.exponent = .finite negative m e hc := by
      have := List.find?_some hfind
      rw [beq_iff_eq] at this
      exact this.trans hthis
    -- A decimal without digits would be read as zero.
    have hdigits : d.digits ≠ 0 := by
      intro hz
      unfold ofDecimal at hread
      rw [if_pos hz, zero] at hread
      injection hread with _ hzero
      exact hm hzero.symm
    exact ⟨stripZeros_digits_ne_zero 20 hdigits, (ofDecimal_stripZeros 20 d).trans hread⟩
  · exact ⟨exactDecimal_digits_ne_zero hm e, ofDecimal_exactDecimal hc hm⟩

end PageBuilder.Double
