import Mathlib.Algebra.Order.Field.Power
import Mathlib.Data.Int.Log
import Mathlib.Data.Rat.Floor
import Mathlib.Tactic.FieldSimp
import Mathlib.Tactic.NormNum
import Mathlib.Tactic.Positivity
import Mathlib.Tactic.Ring
import PageBuilder.Number.Double

/-!
# The double nearest to a fraction

`ofRatio` works on a numerator and a denominator, but what it answers depends on their quotient
only (`ofRatio_congr`), and of a double's own value it answers that double (`ofRatio_exact`).  Both
rest on `lastBit_eq`: the guess from the bit lengths and its one correction make the binary
logarithm of the quotient.
-/

namespace PageBuilder.Double

/-! ## Rounding quotients -/

theorem roundDiv_mul_left {c : Nat} (hc : 0 < c) (a b : Nat) :
    roundDiv (c * a) (c * b) = roundDiv a b := by
  have hlow : 2 * (c * (a % b)) < c * b ↔ 2 * (a % b) < b := by
    rw [Nat.mul_left_comm]
    exact Nat.mul_lt_mul_left hc
  have hhigh : c * b < 2 * (c * (a % b)) ↔ b < 2 * (a % b) := by
    rw [Nat.mul_left_comm]
    exact Nat.mul_lt_mul_left hc
  simp only [roundDiv, Nat.mul_div_mul_left _ _ hc, Nat.mul_mod_mul_left, hlow, hhigh]

theorem roundDiv_congr {a b a' b' : Nat} (hb : 0 < b) (hb' : 0 < b') (h : a * b' = a' * b) :
    roundDiv a b = roundDiv a' b' := by
  rw [← roundDiv_mul_left hb' a b, ← roundDiv_mul_left hb a' b', Nat.mul_comm b' a,
    Nat.mul_comm b a', h, Nat.mul_comm b' b]

theorem roundDiv_mul_right {b : Nat} (hb : 0 < b) (m : Nat) : roundDiv (m * b) b = m := by
  simp [roundDiv, Nat.mul_div_cancel m hb, hb]

variable {num den num' den' : Nat}

theorem scaledRound_congr (hd : 0 < den) (hd' : 0 < den') (h : num * den' = num' * den)
    (e : Int) : scaledRound num den e = scaledRound num' den' e := by
  cases e with
  | ofNat k =>
    apply roundDiv_congr (Nat.mul_pos hd (by simp)) (Nat.mul_pos hd' (by simp))
    rw [← Nat.mul_assoc, ← Nat.mul_assoc, h]
  | negSucc k =>
    apply roundDiv_congr hd hd'
    rw [Nat.mul_right_comm, h, Nat.mul_right_comm]

/-! ## The last bit -/

/-- Whether a guess leaves at least 53 bits before the point. -/
def guessFits (num den : Nat) : Int → Bool
  | .ofNat k => den * Nat.pow 2 k * Nat.pow 2 52 ≤ num
  | .negSucc k => den * Nat.pow 2 52 ≤ num * Nat.pow 2 (k + 1)

theorem guessFits_iff (num : Nat) (hd : 0 < den) (guess : Int) :
    guessFits num den guess = true ↔ (2 : ℚ) ^ (guess + 52) ≤ (num : ℚ) / den := by
  have hden : (0 : ℚ) < den := by exact_mod_cast hd
  rw [le_div_iff₀ hden]
  cases guess with
  | ofNat k =>
    simp only [guessFits, decide_eq_true_eq, Nat.pow_eq]
    have hpow : (2 : ℚ) ^ (Int.ofNat k + 52) * den = ((den * 2 ^ k * 2 ^ 52 : Nat) : ℚ) := by
      rw [show Int.ofNat k + 52 = ((k + 52 : Nat) : Int) by simp, zpow_natCast]
      push_cast
      ring
    rw [hpow, Nat.cast_le]
  | negSucc k =>
    simp only [guessFits, decide_eq_true_eq, Nat.pow_eq]
    have hpow :
        (2 : ℚ) ^ (Int.negSucc k + 52) * den * 2 ^ (k + 1) = ((den * 2 ^ 52 : Nat) : ℚ) := by
      rw [zpow_add₀ (by norm_num), zpow_negSucc]
      push_cast
      field_simp
    rw [← mul_le_mul_iff_left₀ (show (0 : ℚ) < 2 ^ (k + 1) by positivity), hpow]
    exact_mod_cast Iff.rfl

/-- The bit lengths of two numbers bound the logarithm of their quotient. -/
theorem log_ratio_bounds (hn : 0 < num) (hd : 0 < den) :
    (Nat.log2 num : Int) - Nat.log2 den - 1 ≤ Int.log 2 ((num : ℚ) / den) ∧
      Int.log 2 ((num : ℚ) / den) < (Nat.log2 num : Int) - Nat.log2 den + 1 := by
  have hden : (0 : ℚ) < den := by exact_mod_cast hd
  have hq : (0 : ℚ) < (num : ℚ) / den := by positivity
  rw [← Int.zpow_le_iff_le_log (by norm_num) hq, ← Int.lt_zpow_iff_log_lt (by norm_num) hq,
    Nat.cast_ofNat, le_div_iff₀ hden, div_lt_iff₀ hden]
  have hnum1 : (2 : ℚ) ^ Nat.log2 num ≤ num := by exact_mod_cast Nat.log2_self_le hn.ne'
  have hnum2 : (num : ℚ) < 2 ^ (Nat.log2 num + 1) := by
    exact_mod_cast Nat.lt_log2_self (n := num)
  have hden1 : (2 : ℚ) ^ Nat.log2 den ≤ den := by exact_mod_cast Nat.log2_self_le hd.ne'
  have hden2 : (den : ℚ) < 2 ^ (Nat.log2 den + 1) := by
    exact_mod_cast Nat.lt_log2_self (n := den)
  -- Both bounds are those of the denominator times the power, written as one power.
  constructor
  · have hpow : (2 : ℚ) ^ ((Nat.log2 num : Int) - Nat.log2 den - 1) * 2 ^ (Nat.log2 den + 1) =
        2 ^ Nat.log2 num := by
      rw [← zpow_natCast, ← zpow_natCast, ← zpow_add₀ (by norm_num)]
      congr 1
      push_cast
      ring
    have hpos : (0 : ℚ) < 2 ^ ((Nat.log2 num : Int) - Nat.log2 den - 1) := by positivity
    exact ((mul_lt_mul_of_pos_left hden2 hpos).le.trans hpow.le).trans hnum1
  · have hpow : (2 : ℚ) ^ ((Nat.log2 num : Int) - Nat.log2 den + 1) * 2 ^ Nat.log2 den =
        2 ^ (Nat.log2 num + 1) := by
      rw [← zpow_natCast, ← zpow_natCast, ← zpow_add₀ (by norm_num)]
      congr 1
      push_cast
      ring
    have hpos : (0 : ℚ) < 2 ^ ((Nat.log2 num : Int) - Nat.log2 den + 1) := by positivity
    exact hnum2.trans_le (hpow.ge.trans (mul_le_mul_of_nonneg_left hden1 hpos.le))

theorem lastBit_eq (hn : 0 < num) (hd : 0 < den) :
    lastBit num den = max (Int.log 2 ((num : ℚ) / den) - 52) (-1074) := by
  have hq : (0 : ℚ) < (num : ℚ) / den := by positivity
  obtain ⟨hlow, hhigh⟩ := log_ratio_bounds hn hd
  have hfits := guessFits_iff num hd ((Nat.log2 num : Int) - Nat.log2 den - 52)
  rw [Int.sub_add_cancel] at hfits
  have hlog := hfits.trans (Int.zpow_le_iff_le_log (b := 2) (by norm_num) hq)
  show max (if guessFits num den ((Nat.log2 num : Int) - Nat.log2 den - 52) = true then
    (Nat.log2 num : Int) - Nat.log2 den - 52 else (Nat.log2 num : Int) - Nat.log2 den - 52 - 1)
      (-1074) = _
  -- The guess is one too large exactly when it does not fit.
  by_cases hle : (Nat.log2 num : Int) - Nat.log2 den ≤ Int.log 2 ((num : ℚ) / den)
  · rw [if_pos (hlog.2 hle)]
    congr 1
    omega
  · rw [if_neg (fun hguess => hle (hlog.1 hguess))]
    congr 1
    omega

/-! ## Fractions of one value -/

/-- The nearest double depends on the value of a fraction only. -/
theorem ofRatio_congr (negative : Bool) (hd : 0 < den) (hd' : 0 < den')
    (h : (num : ℚ) / den = (num' : ℚ) / den') :
    ofRatio negative num den = ofRatio negative num' den' := by
  have hcross : num * den' = num' * den := by
    rw [div_eq_div_iff (by exact_mod_cast hd.ne') (by exact_mod_cast hd'.ne')] at h
    exact_mod_cast h
  by_cases hn : num = 0
  · have hn' : num' = 0 := by
      rw [hn, Nat.zero_mul] at hcross
      exact (Nat.mul_eq_zero.1 hcross.symm).resolve_right hd.ne'
    rw [hn, hn', ofRatio, ofRatio, if_pos rfl, if_pos rfl]
  · have hn' : num' ≠ 0 := by
      intro hz
      rw [hz, Nat.zero_mul] at hcross
      exact (Nat.mul_eq_zero.1 hcross).elim hn hd'.ne'
    have hbit : lastBit num den = lastBit num' den' := by
      rw [lastBit_eq (Nat.pos_of_ne_zero hn) hd, lastBit_eq (Nat.pos_of_ne_zero hn') hd', h]
    simp only [ofRatio, if_neg hn, if_neg hn', hbit, scaledRound_congr hd hd' hcross]

/-! ## Values of doubles -/

variable {m : Nat} {e : Int}

theorem scaledRound_exact (hd : 0 < den) (h : (num : ℚ) / den = m * 2 ^ e) :
    scaledRound num den e = m := by
  have hden : (den : ℚ) ≠ 0 := by exact_mod_cast hd.ne'
  rw [div_eq_iff hden] at h
  cases e with
  | ofNat k =>
    have hnum : num = m * (den * 2 ^ k) := by
      rw [Int.ofNat_eq_natCast, zpow_natCast] at h
      have : (num : ℚ) = ((m * (den * 2 ^ k) : Nat) : ℚ) := by
        rw [h]
        push_cast
        ring
      exact_mod_cast this
    show roundDiv num (den * 2 ^ k) = m
    rw [hnum]
    exact roundDiv_mul_right (by positivity) m
  | negSucc k =>
    have hnum : num * 2 ^ (k + 1) = m * den := by
      rw [zpow_negSucc] at h
      have : ((num * 2 ^ (k + 1) : Nat) : ℚ) = ((m * den : Nat) : ℚ) := by
        push_cast
        rw [h]
        field_simp
      exact_mod_cast this
    show roundDiv (num * 2 ^ (k + 1)) den = m
    rw [hnum]
    exact roundDiv_mul_right hd m

/-- A canonical significand has its last bit where its exponent says. -/
theorem lastBit_exact (hc : IsCanonical m e) (hm : m ≠ 0) (hd : 0 < den)
    (h : (num : ℚ) / den = m * 2 ^ e) : lastBit num den = e := by
  obtain ⟨hlt, hleast, -, hnormal⟩ := hc
  rw [Nat.pow_eq] at hlt hnormal
  have hmpos : (0 : ℚ) < m := by exact_mod_cast Nat.pos_of_ne_zero hm
  have hq : (0 : ℚ) < (num : ℚ) / den := by
    rw [h]
    positivity
  have hn : 0 < num := by
    by_contra hz
    have : num = 0 := by omega
    simp [this] at hq
  have hhigh : Int.log 2 ((num : ℚ) / den) < e + 53 := by
    rw [← Int.lt_zpow_iff_log_lt (by norm_num) hq, h, zpow_add₀ (by norm_num), mul_comm]
    have : (m : ℚ) < 2 ^ 53 := by exact_mod_cast hlt
    exact mul_lt_mul_of_pos_left this (by positivity)
  rw [lastBit_eq hn hd]
  rcases hnormal with hbig | hsmall
  · have hlow : e + 52 ≤ Int.log 2 ((num : ℚ) / den) := by
      rw [← Int.zpow_le_iff_le_log (by norm_num) hq, h, zpow_add₀ (by norm_num), mul_comm]
      have : (2 : ℚ) ^ 52 ≤ m := by exact_mod_cast hbig
      exact mul_le_mul_of_nonneg_right this (by positivity)
    omega
  · omega

/-- A fraction with the value of a double is read as that double. -/
theorem ofRatio_exact (negative : Bool) (hc : IsCanonical m e) (hm : m ≠ 0) (hd : 0 < den)
    (h : (num : ℚ) / den = m * 2 ^ e) : ofRatio negative num den = .finite negative m e hc := by
  have hn : num ≠ 0 := by
    intro hz
    rw [hz, Nat.cast_zero, zero_div] at h
    have : (0 : ℚ) < m * 2 ^ e := by
      have : 0 < m := Nat.pos_of_ne_zero hm
      positivity
    exact this.ne h
  have hlt : m ≠ Nat.pow 2 53 := hc.1.ne
  simp only [ofRatio, if_neg hn, lastBit_exact hc hm hd h, scaledRound_exact hd h, if_neg hlt,
    ofParts, dif_pos hc]

end PageBuilder.Double
