import PageBuilder.Number.Double
import PageBuilder.Number.Decimal
import PageBuilder.Number.Integer

/-!
# Decimal numerals are read as they are written

Three readers meet the digits that `naturalText` writes: the reader of integer texts, the run of
digits at the front of a number, and the counter of ids.  Each is shown to compute
`Nat.ofDigitChars`, whose inverse is `Nat.toDigits`.
-/

namespace PageBuilder.Number

open PageBuilder.Text

theorem isDigit_of_mem_naturalText {n : Nat} {c : Char} (h : c ∈ naturalText n) :
    c.isDigit = true :=
  Nat.isDigit_of_mem_toDigits (by decide) (by decide) h

theorem naturalText_ne_nil (n : Nat) : naturalText n ≠ [] :=
  Nat.toDigits_ne_nil

theorem ofDigitChars_naturalText (n : Nat) : Nat.ofDigitChars 10 (naturalText n) 0 = n :=
  Nat.ofDigitChars_ten_toDigits

/-- Only the numeral of zero begins with a zero. -/
theorem head?_naturalText_ne {n : Nat} (hn : n ≠ 0) : (naturalText n).head? ≠ some '0' := by
  induction n using Nat.strongRecOn with
  | _ n ih =>
    by_cases hlt : n < 10
    · rw [naturalText, Nat.toDigits_of_lt_base hlt, List.head?_cons, ne_eq, Option.some.injEq]
      have hall : ∀ m : Fin 10, m.val ≠ 0 → Nat.digitChar m.val ≠ '0' := by decide
      exact hall ⟨n, hlt⟩ hn
    · rw [naturalText, Nat.toDigits_of_base_le (by decide) (by omega),
        List.head?_append, Option.or_of_isSome (by simp [Nat.toDigits_ne_nil])]
      exact ih (n / 10) (by omega) (by omega)

theorem toNat_of_isDigit {c : Char} (h : c.isDigit = true) : 0x30 ≤ c.toNat ∧ c.toNat ≤ 0x39 := by
  simp only [Char.isDigit, Bool.and_eq_true, decide_eq_true_eq] at h
  exact ⟨h.1, h.2⟩

theorem decimalValue?_of_isDigit {c : Char} (h : c.isDigit = true) :
    decimalValue? c = some (c.toNat - 0x30) := by
  obtain ⟨h1, h2⟩ := toNat_of_isDigit h
  have hlt : c.toNat - 0x30 < 10 := by omega
  rw [decimalValue?, decimalRuns, List.find?_cons_of_pos (by simp [h1, h2]), Option.map_some,
    Nat.mod_eq_of_lt hlt]

theorem isDigitLike_of_isDigit {c : Char} (h : c.isDigit = true) : isDigitLike c = true :=
  isDigitLike_of_decimalValue? (decimalValue?_of_isDigit h)

theorem isSpace_of_isDigit {c : Char} (h : c.isDigit = true) : isSpace c = false := by
  obtain ⟨h1, h2⟩ := toNat_of_isDigit h
  simp only [isSpace, Bool.or_eq_false_iff, Bool.and_eq_false_iff, decide_eq_false_iff_not,
    beq_eq_false_iff_ne]
  omega

/-! ## Integer texts -/

theorem digitsAfter_eq {ds : List Char} (h : ∀ c ∈ ds, c.isDigit = true) (acc : Nat) :
    digitsAfter acc ds = some (Nat.ofDigitChars 10 ds acc) := by
  induction ds generalizing acc with
  | nil => rfl
  | cons c rest ih =>
    have hc := h c List.mem_cons_self
    have hne : c ≠ '_' := fun heq => absurd (heq ▸ hc) (by decide)
    rw [digitsAfter]
    · rw [decimalValue?_of_isDigit hc, Option.bind_some,
        ih fun d hd => h d (List.mem_cons_of_mem _ hd), Nat.ofDigitChars_cons, Nat.mul_comm]
      rfl
    · exact fun _ _ heq => absurd heq hne

theorem natural?_eq {ds : List Char} (h : ∀ c ∈ ds, c.isDigit = true) (hne : ds ≠ []) :
    natural? ds = some (Nat.ofDigitChars 10 ds 0) := by
  cases ds with
  | nil => exact absurd rfl hne
  | cons c rest =>
    rw [natural?, decimalValue?_of_isDigit (h c List.mem_cons_self), Option.bind_some,
      digitsAfter_eq fun d hd => h d (List.mem_cons_of_mem _ hd), Nat.ofDigitChars_cons,
      Nat.mul_zero, Nat.zero_add]
    rfl

theorem dropEndWhile_eq_self {p : Char → Bool} {cs : List Char} (h : ∀ c ∈ cs, p c = false) :
    dropEndWhile p cs = cs := by
  induction cs with
  | nil => rfl
  | cons c rest ih =>
    rw [dropEndWhile, ih fun d hd => h d (List.mem_cons_of_mem _ hd)]
    cases rest with
    | nil => simp [h c List.mem_cons_self]
    | cons d rest => rfl

theorem trimWhile_eq_self {p : Char → Bool} {cs : List Char} (h : ∀ c ∈ cs, p c = false) :
    trimWhile p cs = cs := by
  have hdrop : cs.dropWhile p = cs := by
    cases cs with
    | nil => rfl
    | cons c rest => simp [h c List.mem_cons_self]
  rw [trimWhile, hdrop, dropEndWhile_eq_self h]

/-- A text of digits denotes the number they make. -/
theorem integer?_ofDigits {ds : List Char} (h : ∀ c ∈ ds, c.isDigit = true) (hne : ds ≠ []) :
    integer? (String.ofList ds) = some ((Nat.ofDigitChars 10 ds 0 : Nat) : Int) := by
  rw [integer?, String.toList_ofList, trimWhile_eq_self fun c hc => isSpace_of_isDigit (h c hc)]
  split
  · exact absurd (h _ List.mem_cons_self) (by decide)
  · exact absurd (h _ List.mem_cons_self) (by decide)
  · rw [natural?_eq h hne]
    rfl

/-! ## Digits and white space -/

/-- No white space looks like a digit. -/
theorem isSpace_of_isDigitLike {c : Char} (h : isDigitLike c = true) : isSpace c = false := by
  rw [isDigitLike, Bool.or_eq_true, within_iff, within_iff] at h
  have hfar : ∀ run ∈ decimalRuns ++ otherDigitRuns, ∀ space ∈ [(0x09, 0x0d), (0x20, 0x20),
      (0x85, 0x85), (0xa0, 0xa0), (0x1680, 0x1680), (0x2000, 0x200a), (0x2028, 0x2029),
      (0x202f, 0x202f), (0x205f, 0x205f), (0x3000, 0x3000)],
      run.2 < space.1 ∨ space.2 < run.1 := by
    decide
  obtain ⟨run, hrun, hle, hge⟩ :
      ∃ run ∈ decimalRuns ++ otherDigitRuns, run.1 ≤ c.toNat ∧ c.toNat ≤ run.2 := by
    rcases h with ⟨run, hrun, hin⟩ | ⟨run, hrun, hin⟩
    · exact ⟨run, List.mem_append_left _ hrun, hin⟩
    · exact ⟨run, List.mem_append_right _ hrun, hin⟩
  have hrun := hfar run hrun
  simp only [List.forall_mem_cons, List.not_mem_nil, false_implies, implies_true, and_true] at hrun
  simp only [isSpace, Bool.or_eq_false_iff, Bool.and_eq_false_iff, decide_eq_false_iff_not,
    beq_eq_false_iff_ne]
  omega

/-! ## Runs of digits -/

theorem digitRun_eq {ds rest : List Char} (h : ∀ c ∈ ds, c.isDigit = true)
    (hrest : ∀ c ∈ rest.head?, c.isDigit = false) (acc count : Nat) :
    Double.digitRun acc count (ds ++ rest) =
      (Nat.ofDigitChars 10 ds acc, count + ds.length, rest) := by
  induction ds generalizing acc count with
  | nil =>
    cases rest with
    | nil => rfl
    | cons c rest => simp [Double.digitRun, hrest c (by simp)]
  | cons c ds ih =>
    rw [List.cons_append, Double.digitRun, if_pos (h c List.mem_cons_self),
      ih fun d hd => h d (List.mem_cons_of_mem _ hd), Nat.ofDigitChars_cons, Nat.mul_comm acc]
    simp only [List.length_cons, Prod.mk.injEq, and_true]
    exact ⟨rfl, by omega⟩

end PageBuilder.Number
