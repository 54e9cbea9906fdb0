import PageBuilder.Proofs.Json.RoundTrip

/-!
# Texts without control characters

Control characters are those up to U+001F, as in JSON; line feeds are among them.  No number is
written with one, and no string literal, whatever the string holds.
-/

namespace PageBuilder

namespace Text

open Number

/-- Without control characters. -/
def ControlFree (cs : List Char) : Prop :=
  ∀ c ∈ cs, 0x1f < c.toNat

instance (cs : List Char) : Decidable (ControlFree cs) :=
  List.decidableBAll _ cs

@[simp] theorem controlFree_nil : ControlFree [] := nofun

@[simp] theorem controlFree_cons {c : Char} {cs : List Char} :
    ControlFree (c :: cs) ↔ 0x1f < c.toNat ∧ ControlFree cs :=
  List.forall_mem_cons

@[simp] theorem controlFree_append {cs ds : List Char} :
    ControlFree (cs ++ ds) ↔ ControlFree cs ∧ ControlFree ds :=
  List.forall_mem_append

/-- Above all there is no line feed. -/
theorem ControlFree.not_mem_newline {cs : List Char} (h : ControlFree cs) : '\n' ∉ cs :=
  fun hm => absurd (h _ hm) (by decide)

/-! ## Numbers -/

/-- Digits are no controls. -/
theorem controlFree_of_digits {cs : List Char} (h : ∀ c ∈ cs, c.isDigit = true) :
    ControlFree cs :=
  fun c hc => Nat.lt_of_lt_of_le (by decide) (toNat_of_isDigit (h c hc)).1

theorem controlFree_naturalText (n : Nat) : ControlFree (naturalText n) :=
  controlFree_of_digits fun _ => isDigit_of_mem_naturalText

theorem controlFree_zeros (k : Nat) : ControlFree (List.replicate k '0') :=
  controlFree_of_digits fun _ => Json.isDigit_of_mem_zeros

theorem controlFree_numeral (n : Int) : ControlFree (numeral n).toList := by
  cases n with
  | ofNat n =>
    rw [numeral, String.toList_ofList]
    exact controlFree_naturalText n
  | negSucc n =>
    rw [numeral, String.toList_ofList, controlFree_cons]
    exact ⟨by decide, controlFree_naturalText (n + 1)⟩

theorem controlFree_exponentText (style : DecimalStyle) (e : Int) :
    ControlFree (Decimal.exponentText style e) := by
  rw [Decimal.exponentText, controlFree_cons, controlFree_append]
  exact ⟨by split <;> decide, controlFree_zeros _, controlFree_naturalText _⟩

/-- A decimal is digits, a point, a letter and signs, however it is laid out. -/
theorem controlFree_layout (style : DecimalStyle) (d : Decimal) :
    ControlFree (d.layout style) := by
  have hdigits := controlFree_naturalText d.digits
  unfold Decimal.layout
  dsimp only
  split
  case isTrue =>
    split
    case isTrue =>
      simp only [controlFree_cons, controlFree_append]
      exact ⟨by decide, by decide, controlFree_zeros _, hdigits⟩
    case isFalse =>
      split
      case isTrue =>
        simp only [controlFree_append]
        exact ⟨⟨hdigits, controlFree_zeros _⟩, by decide⟩
      case isFalse =>
        simp only [controlFree_append, controlFree_cons]
        exact ⟨fun c hc => hdigits c (List.mem_of_mem_take hc), by decide,
          fun c hc => hdigits c (List.mem_of_mem_drop hc)⟩
  case isFalse =>
    cases hd : naturalText d.digits with
    | nil => exact controlFree_nil
    | cons c rest =>
      rw [hd, controlFree_cons] at hdigits
      obtain ⟨hc, hrest⟩ := hdigits
      simp only [controlFree_cons, controlFree_append]
      refine ⟨hc, ?_, by decide, controlFree_exponentText _ _⟩
      split
      · exact controlFree_nil
      · exact controlFree_cons.2 ⟨by decide, hrest⟩

theorem controlFree_text (x : Double) : ControlFree x.text.toList := by
  cases x with
  | nan => decide
  | infinite negative => cases negative <;> decide
  | finite negative m e hc =>
    rw [Double.text, String.toList_ofList, controlFree_append]
    exact ⟨by cases negative <;> decide, controlFree_layout _ _⟩

/-! ## String literals -/

theorem controlFree_hexNumeral (width n : Nat) : ControlFree (hexNumeral width n) := by
  have hdigit : ∀ m : Fin 16, 0x1f < (hexDigit m.val).toNat := by decide
  induction width generalizing n with
  | zero => exact controlFree_nil
  | succ width ih =>
    rw [hexNumeral, controlFree_append, controlFree_cons]
    exact ⟨ih _, hdigit ⟨n % 16, Nat.mod_lt _ (by decide)⟩, controlFree_nil⟩

end Text

namespace Json

open Text

/-- The letters that stand for characters after a backslash are none either. -/
theorem lt_toNat_of_escaped? {letter c : Char} (h : escaped? letter = some c) :
    0x1f < letter.toNat := by
  unfold escaped? at h
  split_ifs at h with hself hb hf hn hr ht
  · simp only [Bool.or_eq_true, decide_eq_true_eq] at hself
    rcases hself with (rfl | rfl) | rfl <;> decide
  all_goals
    subst letter
    decide

/-- A control character is written by its letter or its number, and so does not stand for itself.
-/
theorem controlFree_plainChar (c : Char) : ControlFree (plainChar c) := by
  obtain ⟨letter, hletter, -, hplain⟩ | ⟨-, hplain⟩ | ⟨-, -, hcontrol, hplain⟩ :=
    plainChar_cases c
  · rw [hplain, controlFree_cons, controlFree_cons]
    exact ⟨by decide, lt_toNat_of_escaped? hletter, controlFree_nil⟩
  · rw [hplain, unitEscape, controlFree_cons, controlFree_cons]
    exact ⟨by decide, by decide, controlFree_hexNumeral _ _⟩
  · rw [hplain, controlFree_cons]
    exact ⟨Nat.lt_of_not_le hcontrol, controlFree_nil⟩

/-- A string literal has no control characters, whatever the string has. -/
theorem controlFree_literal (s : String) : ControlFree (literal plainChar s).toList := by
  have hbody : ControlFree (s.toList.flatMap plainChar) := by
    intro d hd
    obtain ⟨c, -, hd⟩ := List.mem_flatMap.1 hd
    exact controlFree_plainChar c d hd
  rw [literal, String.toList_ofList, controlFree_append, controlFree_cons]
  exact ⟨⟨by decide, hbody⟩, by decide⟩

end Json

end PageBuilder
