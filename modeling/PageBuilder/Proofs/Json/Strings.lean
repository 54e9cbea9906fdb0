import Mathlib.Algebra.Group.Nat.Defs
import Mathlib.Tactic.SplitIfs
import PageBuilder.Json.Printer
import PageBuilder.Json.Reader

/-!
# Strings read back from JSON

Each character is written on its own, and the reader takes it off again before it goes on: one
lemma per way of writing a character, and an induction over the string.
-/

namespace PageBuilder.Json

open PageBuilder.Text

theorem hexNumeral?_append (cs : List Char) (c : Char) :
    hexNumeral? (cs ++ [c]) =
      (hexNumeral? cs).bind fun acc => (hexValue? c).map (acc * 16 + ·) := by
  simp [hexNumeral?, List.foldlM_append]

theorem hexNumeral?_hexNumeral (width n : Nat) :
    hexNumeral? (hexNumeral width n) = some (n % 16 ^ width) := by
  induction width generalizing n with
  | zero => simp [hexNumeral, hexNumeral?, Nat.mod_one]
  | succ width ih =>
    rw [hexNumeral, hexNumeral?_append, ih, Option.bind_some,
      hexValue?_hexDigit (Nat.mod_lt _ (by decide)), Option.map_some, Nat.pow_succ',
      Nat.mod_mul, Nat.mul_comm, Nat.add_comm]

variable {opening s after tail : List Char}

theorem exists_of_stringBody (h : stringBody opening tail = .ok (s, after)) :
    ∃ c rest, tail = c :: rest := by
  cases tail with
  | nil => rw [stringBody] at h; cases h
  | cons c rest => exact ⟨c, rest, rfl⟩

/-- A character that stands for itself. -/
theorem stringBody_self {c : Char} (hquote : c ≠ '"') (hslash : c ≠ '\\')
    (hcontrol : ¬ c.toNat ≤ 0x1f) (h : stringBody opening tail = .ok (s, after)) :
    stringBody opening (c :: tail) = .ok (c :: s, after) := by
  unfold stringBody
  rw [if_neg hquote, if_neg hcontrol, if_neg hslash, h]

/-- An escape of one letter. -/
theorem stringBody_escaped {letter x : Char} (hletter : escaped? letter = some x)
    (hu : letter ≠ 'u') (h : stringBody opening tail = .ok (s, after)) :
    stringBody opening ('\\' :: letter :: tail) = .ok (x :: s, after) := by
  rw [stringBody, if_neg (by decide), if_neg (by decide), if_pos rfl]
  · rw [hletter]
    dsimp only
    rw [h]
  · exact hu

/-- An escape of one code unit that is no half of a pair. -/
theorem stringBody_unit {n : Nat} (hn : n < 0x10000) (hhigh : isHighHalf n = false)
    (h : stringBody opening tail = .ok (s, after)) :
    stringBody opening (unitEscape n ++ tail) = .ok (unitChar n :: s, after) := by
  obtain ⟨e, more, rfl⟩ := exists_of_stringBody h
  have hread := hexNumeral?_hexNumeral 4 n
  rw [Nat.mod_eq_of_lt (by omega)] at hread
  obtain ⟨a, b, c, d, habcd⟩ : ∃ a b c d, hexNumeral 4 n = [a, b, c, d] :=
    ⟨_, _, _, _, rfl⟩
  rw [habcd] at hread
  rw [unitEscape, habcd]
  show stringBody opening ('\\' :: 'u' :: a :: b :: c :: d :: e :: more) = _
  rw [stringBody, if_neg (by decide), if_neg (by decide), if_pos rfl]
  simp only [hread, hhigh, Bool.false_and, Bool.false_eq_true, if_false, h]

/-- How a character is written: as a letter after a backslash, as a code unit, or as itself. -/
theorem plainChar_cases (c : Char) :
    (∃ letter, escaped? letter = some c ∧ letter ≠ 'u' ∧ plainChar c = ['\\', letter]) ∨
    (c.toNat ≤ 0x1f ∧ plainChar c = unitEscape c.toNat) ∨
    (c ≠ '"' ∧ c ≠ '\\' ∧ ¬ c.toNat ≤ 0x1f ∧ plainChar c = [c]) := by
  unfold plainChar
  split_ifs with hquoted hn hr ht hb hf hcontrol
  · simp only [Bool.or_eq_true, decide_eq_true_eq] at hquoted
    rcases hquoted with rfl | rfl
    · exact Or.inl ⟨'"', rfl, by decide, rfl⟩
    · exact Or.inl ⟨'\\', rfl, by decide, rfl⟩
  · exact Or.inl ⟨'n', hn ▸ rfl, by decide, rfl⟩
  · exact Or.inl ⟨'r', hr ▸ rfl, by decide, rfl⟩
  · exact Or.inl ⟨'t', ht ▸ rfl, by decide, rfl⟩
  · exact Or.inl ⟨'b', hb ▸ rfl, by decide, rfl⟩
  · exact Or.inl ⟨'f', hf ▸ rfl, by decide, rfl⟩
  · exact Or.inr (Or.inl ⟨hcontrol, rfl⟩)
  · simp only [Bool.or_eq_true, decide_eq_true_eq, not_or] at hquoted
    exact Or.inr (Or.inr ⟨hquoted.1, hquoted.2, hcontrol, rfl⟩)

/-- A character comes off as it was written. -/
theorem stringBody_plainChar (c : Char) (h : stringBody opening tail = .ok (s, after)) :
    stringBody opening (plainChar c ++ tail) = .ok (c :: s, after) := by
  obtain ⟨letter, hletter, hu, hplain⟩ | ⟨hcontrol, hplain⟩ |
    ⟨hquote, hslash, hcontrol, hplain⟩ := plainChar_cases c
  · rw [hplain]
    exact stringBody_escaped hletter hu h
  · -- A control character lies below both halves of a pair.
    have hhigh : isHighHalf c.toNat = false := by
      simp [isHighHalf]
      omega
    have hlow : isLowHalf c.toNat = false := by
      simp [isLowHalf]
      omega
    have hread := stringBody_unit (by omega) hhigh h
    rw [unitChar, hhigh, hlow, Bool.or_false, if_neg (by decide), Char.ofNat_toNat] at hread
    rw [hplain]
    exact hread
  · rw [hplain]
    exact stringBody_self hquote hslash hcontrol h

theorem stringBody_flatMap (opening s after : List Char) :
    stringBody opening (s.flatMap plainChar ++ '"' :: after) = .ok (s, after) := by
  induction s with
  | nil =>
    rw [List.flatMap_nil, List.nil_append]
    unfold stringBody
    rw [if_pos rfl]
  | cons c rest ih =>
    rw [List.flatMap_cons, List.append_assoc]
    exact stringBody_plainChar c ih

end PageBuilder.Json
