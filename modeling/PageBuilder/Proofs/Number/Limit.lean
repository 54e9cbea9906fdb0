import Mathlib.Algebra.Group.Nat.Defs
import Mathlib.Data.List.TakeWhile
import PageBuilder.Proofs.Number.Numeral
import PageBuilder.Value.Text

/-!
# The limit on digits

An integer is turned into text if its numeral keeps within the limit (`fits_iff`).  For a text of
digits the question is how many decimal digits it begins with: too many of them are refused,
whatever follows, and else it is read as it denotes (`readInteger_eq`).
-/

namespace PageBuilder.Number

open PageBuilder.Text

/-! ## Integers that can be written -/

theorem fits_iff {n : Int} : fits n = true ↔ n.natAbs < 10 ^ digitLimit := by
  have hpos : 0 < digitLimit := by decide
  rw [fits, decide_eq_true_eq, naturalText]
  exact Nat.length_toDigits_le_iff (by decide) hpos

theorem fits_of_le {m n : Int} (h : fits n = true) (hle : m.natAbs ≤ n.natAbs) : fits m = true :=
  fits_iff.2 (Nat.lt_of_le_of_lt hle (fits_iff.1 h))

theorem length_naturalText_of_fits {n : Nat} (h : fits n = true) :
    (naturalText n).length ≤ digitLimit := by
  simpa [fits] using h

/-- The least number of too many digits. -/
def overlong : Int := ((10 ^ digitLimit : Nat) : Int)

theorem fits_overlong : fits overlong = false := by
  rw [Bool.eq_false_iff, ne_eq, fits_iff, overlong, Int.natAbs_natCast]
  exact Nat.lt_irrefl _

/-- The number of decimal digits that a text begins with. -/
def leadingDecimals (cs : List Char) : Nat :=
  (cs.takeWhile fun c => (decimalValue? c).isSome).length

theorem leadingDecimals_of_isDigit {ds : List Char} (h : ∀ c ∈ ds, c.isDigit = true) :
    leadingDecimals ds = ds.length := by
  rw [leadingDecimals, List.takeWhile_eq_self_iff.2]
  intro c hc
  simp [decimalValue?_of_isDigit (h c hc)]

theorem ne_underscore_of_isDigitLike {c : Char} (h : isDigitLike c = true) : c ≠ '_' :=
  fun heq => absurd (heq ▸ h) (by decide)

theorem digitCountAfter_eq {cs : List Char} (h : ∀ c ∈ cs, isDigitLike c = true) :
    digitCountAfter cs = some (leadingDecimals cs) := by
  induction cs with
  | nil => rfl
  | cons c rest ih =>
    obtain ⟨hc, hrest⟩ := List.forall_mem_cons.1 h
    have hne := ne_underscore_of_isDigitLike hc
    rw [digitCountAfter]
    · rw [ih hrest, leadingDecimals, leadingDecimals, List.takeWhile_cons]
      split <;> simp [*]
    · exact fun _ _ heq => absurd heq hne
    · exact fun heq => absurd heq hne

theorem leadingDigits_eq {cs : List Char} (h : ∀ c ∈ cs, isDigitLike c = true) :
    leadingDigits cs = leadingDecimals cs := by
  cases cs with
  | nil => rfl
  | cons c rest =>
    rw [leadingDigits, digitCountAfter_eq (List.forall_mem_cons.1 h).2, leadingDecimals,
      leadingDecimals, List.takeWhile_cons]
    split <;> simp [*]

theorem unsigned_eq_self {cs : List Char} (h : ∀ c ∈ cs, isDigitLike c = true) :
    unsigned cs = cs := by
  unfold unsigned
  split
  · exact absurd (h _ List.mem_cons_self) (by decide)
  · exact absurd (h _ List.mem_cons_self) (by decide)
  · rfl

theorem numeralDigits_eq {text : String} (h : isDigitLikeText text = true) :
    numeralDigits text = leadingDecimals text.toList := by
  rw [isDigitLikeText, Bool.and_eq_true, List.all_eq_true] at h
  rw [numeralDigits, trimWhile_eq_self fun c hc => isSpace_of_isDigitLike (h.2 c hc),
    unsigned_eq_self h.2, leadingDigits_eq h.2]

/-- A text of digits is refused if it begins with too many decimal digits, and else read as what it
denotes. -/
theorem readInteger_eq {text : String} (h : isDigitLikeText text = true) :
    readInteger text =
      if digitLimit < leadingDecimals text.toList then
        .error (.tooLong (leadingDecimals text.toList))
      else
        match integer? text with
        | some n => .ok n
        | none => .error .malformed := by
  cases hread : integer? text with
  | none => simp [readInteger, numeralDigits_eq h, hread]
  | some n => simp [readInteger, numeralDigits_eq h, hread]

/-- What is read is what the text denotes. -/
theorem integer?_of_readInteger {text : String} {n : Int} (h : readInteger text = .ok n) :
    integer? text = some n := by
  unfold readInteger at h
  split at h
  · cases h
  · split at h
    · cases h
      assumption
    · cases h

theorem readInteger_eq_ok_iff {text : String} (h : isDigitLikeText text = true) {n : Int} :
    readInteger text = .ok n ↔
      leadingDecimals text.toList ≤ digitLimit ∧ integer? text = some n := by
  rw [readInteger_eq h]
  split
  · simp only [reduceCtorEq, false_iff, not_and]
    omega
  · cases integer? text with
    | none => simp
    | some n =>
      simp only [Except.ok.injEq, Option.some.injEq, iff_and_self]
      omega

/-- Digits that are not too many are read as the number they make. -/
theorem readInteger_ofDigits {ds : List Char} (h : ∀ c ∈ ds, c.isDigit = true) (hne : ds ≠ [])
    (hlen : ds.length ≤ digitLimit) :
    readInteger (String.ofList ds) = .ok ((Nat.ofDigitChars 10 ds 0 : Nat) : Int) := by
  have hlike : isDigitLikeText (String.ofList ds) = true := by
    rw [isDigitLikeText, String.toList_ofList, Bool.and_eq_true, List.all_eq_true]
    exact ⟨by simpa using hne, fun c hc => isDigitLike_of_isDigit (h c hc)⟩
  rw [readInteger_eq_ok_iff hlike, String.toList_ofList, leadingDecimals_of_isDigit h]
  exact ⟨hlen, integer?_ofDigits h hne⟩

end PageBuilder.Number

/-- It has no text. -/
theorem PageBuilder.Value.textFault?_overlong :
    (Value.int Number.overlong).textFault? = some .longInteger := by
  rw [textFault?, Number.fits_overlong]
  rfl
