import PageBuilder.Json.Printer
import PageBuilder.Json.Reader
import PageBuilder.Proofs.Number.Numeral
import PageBuilder.Proofs.Number.Shortest

/-!
# Numbers read back from JSON

The reader takes a number in four parts: a sign, digits before the point, digits after it, and an
exponent.  Each part is read as far as its characters go, so a number reads back whenever what
follows it can continue none of them (`Delimited`).
-/

namespace PageBuilder.Json

open PageBuilder.Number PageBuilder.Text

/-- What follows a number cannot continue it. -/
def Delimited (rest : List Char) : Prop :=
  ∀ c ∈ rest.head?, c.isDigit = false ∧ c ≠ '.' ∧ c ≠ 'e' ∧ c ≠ 'E'

/-! ## The parts of a number -/

/-- The digits after a point, added to the whole part, and their count. -/
def fractionPart (whole : Nat) (rest : List Char) : Nat × Nat × List Char :=
  match rest with
  | '.' :: c :: r => if c.isDigit then Double.digitRun whole 0 (c :: r) else (whole, 0, rest)
  | _ => (whole, 0, rest)

/-- The number of given parts, followed by an exponent or none. -/
def numberOfParts (negative : Bool) (whole digits places : Nat) (rest : List Char) :
    Option (Json × List Char) :=
  match Double.exponentPart? rest with
  | some (e, rest') => some (.float (.ofDecimal negative digits (e - places)), rest')
  | none =>
    if places = 0 then some (.int (if negative then -(whole : Int) else whole), rest)
    else some (.float (.ofDecimal negative digits (-(places : Int))), rest)

/-- A number without its sign. -/
def numberBody (negative : Bool) (body : List Char) : Option (Json × List Char) :=
  match integerPart? body with
  | none => none
  | some (whole, rest) =>
    match fractionPart whole rest with
    | (digits, places, rest) => numberOfParts negative whole digits places rest

/-- A minus sign is taken off first. -/
theorem number?_minus (body : List Char) : number? ('-' :: body) = numberBody true body := by
  unfold number?
  split
  rename_i heq
  split at heq
  · rename_i hcons
    cases hcons
    cases heq
    rfl
  · rename_i hne
    exact absurd rfl (hne body)

/-- Any other beginning belongs to the digits. -/
theorem number?_plain {c : Char} {body : List Char} (hc : c ≠ '-') :
    number? (c :: body) = numberBody false (c :: body) := by
  unfold number?
  split
  rename_i heq
  split at heq
  · rename_i hcons
    cases hcons
    exact absurd rfl hc
  · cases heq
    rfl

/-- So a number with its sign is read by its body, whether it is negative or not. -/
theorem number?_signed (negative : Bool) {c : Char} (hc : c ≠ '-') (body : List Char) :
    number? ((if negative then ['-'] else []) ++ c :: body) = numberBody negative (c :: body) := by
  cases negative with
  | true => exact number?_minus _
  | false => exact number?_plain hc

variable {rest : List Char}

theorem Delimited.not_digit (h : Delimited rest) : ∀ c ∈ rest.head?, c.isDigit = false :=
  fun c hc => (h c hc).1

/-- A run of digits is read as a whole, if it begins with a zero only where it is a single one. -/
theorem integerPart?_digits {ds : List Char} (hdigits : ∀ c ∈ ds, c.isDigit = true)
    (hne : ds ≠ []) (hzero : ds.head? = some '0' → ds = ['0'])
    (hrest : ∀ c ∈ rest.head?, c.isDigit = false) :
    integerPart? (ds ++ rest) = some (Nat.ofDigitChars 10 ds 0, rest) := by
  cases ds with
  | nil => exact absurd rfl hne
  | cons c ds =>
    by_cases hc : c = '0'
    · subst hc
      obtain rfl : ds = [] := by simpa using hzero rfl
      rfl
    · have hrun := digitRun_eq hdigits hrest 0 0
      rw [List.cons_append] at hrun ⊢
      unfold integerPart?
      split
      · rename_i heq
        cases heq
        exact absurd rfl hc
      · rename_i heq
        cases heq
        rw [if_pos (hdigits c List.mem_cons_self), hrun]
      · rename_i heq
        cases heq

/-- Without a point there is no fraction. -/
theorem fractionPart_delimited (whole : Nat) (h : ∀ c ∈ rest.head?, c ≠ '.') :
    fractionPart whole rest = (whole, 0, rest) := by
  unfold fractionPart
  split
  · exact absurd rfl (h '.' rfl)
  · rfl

/-- The digits after a point carry on the number before it. -/
theorem fractionPart_digits (whole : Nat) {ds : List Char}
    (hdigits : ∀ c ∈ ds, c.isDigit = true) (hne : ds ≠ [])
    (hrest : ∀ c ∈ rest.head?, c.isDigit = false) :
    fractionPart whole ('.' :: (ds ++ rest)) = (Nat.ofDigitChars 10 ds whole, ds.length, rest) := by
  cases ds with
  | nil => exact absurd rfl hne
  | cons c ds =>
    have hrun := digitRun_eq hdigits hrest whole 0
    rw [Nat.zero_add, List.cons_append] at hrun
    show (if c.isDigit then Double.digitRun whole 0 (c :: (ds ++ rest)) else _) = _
    rw [if_pos (hdigits c List.mem_cons_self), hrun]

/-- And without its letter there is no exponent. -/
theorem exponentPart?_delimited (h : Delimited rest) : Double.exponentPart? rest = none := by
  cases rest with
  | nil => rfl
  | cons c rest =>
    obtain ⟨-, -, hsmall, hlarge⟩ := h c rfl
    simp [Double.exponentPart?, hsmall, hlarge]

theorem exponentPart?_digits (negative : Bool) {ds : List Char}
    (hdigits : ∀ c ∈ ds, c.isDigit = true) (hne : ds ≠ [])
    (hrest : ∀ c ∈ rest.head?, c.isDigit = false) :
    Double.exponentPart? ('e' :: (if negative then '-' else '+') :: (ds ++ rest)) =
      some (if negative then -(Nat.ofDigitChars 10 ds 0 : Int) else Nat.ofDigitChars 10 ds 0,
        rest) := by
  have hrun := digitRun_eq hdigits hrest 0 0
  cases negative <;> simp [Double.exponentPart?, hrun, hne]

theorem isDigit_of_mem_zeros {c : Char} {k : Nat} (h : c ∈ List.replicate k '0') :
    c.isDigit = true := by
  rw [List.eq_of_mem_replicate h]
  rfl

/-- An exponent is read from any way of writing it, with leading zeros and a plus sign or without.
-/
theorem exponentPart?_text (style : DecimalStyle) (e : Int)
    (hrest : ∀ c ∈ rest.head?, c.isDigit = false) :
    Double.exponentPart? ('e' :: (Decimal.exponentText style e ++ rest)) = some (e, rest) := by
  have hdigits : ∀ c ∈ List.replicate (style.exponentDigits - (naturalText e.natAbs).length) '0' ++
      naturalText e.natAbs, c.isDigit = true := by
    intro c hc
    rcases List.mem_append.1 hc with hzero | hdigit
    · exact isDigit_of_mem_zeros hzero
    · exact isDigit_of_mem_naturalText hdigit
  have hne : List.replicate (style.exponentDigits - (naturalText e.natAbs).length) '0' ++
      naturalText e.natAbs ≠ [] := by
    simp [naturalText_ne_nil]
  have hread := exponentPart?_digits (decide (e < 0)) hdigits hne hrest
  rw [Nat.ofDigitChars_append, Nat.ofDigitChars_replicate_zero, Nat.mul_zero,
    ofDigitChars_naturalText] at hread
  have hvalue : (if decide (e < 0) = true then -(e.natAbs : Int) else e.natAbs) = e := by
    by_cases he : e < 0
    · rw [if_pos (decide_eq_true he)]
      omega
    · rw [if_neg (by simpa using he)]
      omega
  rw [hvalue] at hread
  simp only [decide_eq_true_eq] at hread
  exact hread

/-! ## Integers -/

theorem isDigit_ne_minus {c : Char} (h : c.isDigit = true) : c ≠ '-' := by
  rintro rfl
  exact absurd h (by decide)

/-- A numeral, which begins with a digit. -/
theorem exists_naturalText (n : Nat) :
    ∃ c ds, naturalText n = c :: ds ∧ c.isDigit = true := by
  cases h : naturalText n with
  | nil => exact absurd h (naturalText_ne_nil n)
  | cons c ds => exact ⟨c, ds, rfl, isDigit_of_mem_naturalText (h ▸ List.mem_cons_self)⟩

/-- Only zero begins with a zero. -/
theorem naturalText_of_zero_head {n : Nat} (h : (naturalText n).head? = some '0') :
    naturalText n = ['0'] := by
  by_cases hn : n = 0
  · rw [hn]
    rfl
  · exact absurd h (head?_naturalText_ne hn)

/-- A numeral is read up to its end. -/
theorem integerPart?_naturalText (n : Nat) (hrest : ∀ c ∈ rest.head?, c.isDigit = false) :
    integerPart? (naturalText n ++ rest) = some (n, rest) := by
  rw [integerPart?_digits (fun _ => isDigit_of_mem_naturalText) (naturalText_ne_nil n)
    naturalText_of_zero_head hrest, ofDigitChars_naturalText]

theorem numberBody_naturalText (negative : Bool) (n : Nat) (h : Delimited rest) :
    numberBody negative (naturalText n ++ rest) =
      some (.int (if negative then -(n : Int) else n), rest) := by
  simp only [numberBody, integerPart?_naturalText n h.not_digit,
    fractionPart_delimited n fun c hc => (h c hc).2.1, numberOfParts, exponentPart?_delimited h,
    if_true]

/-- An integer of any size reads back. -/
theorem number?_numeral (n : Int) (h : Delimited rest) :
    number? ((numeral n).toList ++ rest) = some (.int n, rest) := by
  cases n with
  | ofNat n =>
    obtain ⟨c, ds, hds, hc⟩ := exists_naturalText n
    have hbody := numberBody_naturalText false n h
    rw [numeral, String.toList_ofList]
    rw [hds, List.cons_append] at hbody ⊢
    rw [number?_plain (isDigit_ne_minus hc), hbody]
    rfl
  | negSucc n =>
    rw [numeral, String.toList_ofList, List.cons_append, number?_minus,
      numberBody_naturalText true (n + 1) h]
    rfl

/-! ## Doubles -/

section Layout

variable (negative : Bool) {n : Nat} (h : Delimited rest)

include h

/-- A number below one: all its digits stand after the point. -/
theorem numberBody_leadingZeros (n k : Nat) :
    numberBody negative ('0' :: '.' :: (List.replicate k '0' ++ naturalText n) ++ rest) =
      some (.float (.ofDecimal negative n (-((k + (naturalText n).length : Nat) : Int))),
        rest) := by
  have hdigits : ∀ c ∈ List.replicate k '0' ++ naturalText n, c.isDigit = true := by
    intro c hc
    rcases List.mem_append.1 hc with hzero | hdigit
    · exact isDigit_of_mem_zeros hzero
    · exact isDigit_of_mem_naturalText hdigit
  have hne : List.replicate k '0' ++ naturalText n ≠ [] := by simp [naturalText_ne_nil]
  have hcount : k + (naturalText n).length ≠ 0 := by
    have := List.length_pos_iff.2 (naturalText_ne_nil n)
    omega
  have hfraction := fractionPart_digits 0 hdigits hne h.not_digit
  rw [Nat.ofDigitChars_append, Nat.ofDigitChars_replicate_zero, Nat.mul_zero,
    ofDigitChars_naturalText, List.length_append, List.length_replicate] at hfraction
  simp only [List.cons_append, numberBody, integerPart?, hfraction, numberOfParts,
    exponentPart?_delimited h, if_neg hcount]

/-- A whole number: zeros fill it up to the point, and one more stands after it. -/
theorem numberBody_whole {n z : Nat} (hz : n = 0 → z = 0) :
    numberBody negative (naturalText n ++ List.replicate z '0' ++ ['.', '0'] ++ rest) =
      some (.float (.ofDecimal negative n z), rest) := by
  have hdigits : ∀ c ∈ naturalText n ++ List.replicate z '0', c.isDigit = true := by
    intro c hc
    rcases List.mem_append.1 hc with hdigit | hzero
    · exact isDigit_of_mem_naturalText hdigit
    · exact isDigit_of_mem_zeros hzero
  have hne : naturalText n ++ List.replicate z '0' ≠ [] := by simp [naturalText_ne_nil]
  -- Only the numeral of zero begins with a zero, and no zeros are written after that one.
  have hhead : (naturalText n ++ List.replicate z '0').head? = some '0' →
      naturalText n ++ List.replicate z '0' = ['0'] := by
    intro heq
    by_cases hn : n = 0
    · rw [hz hn, hn]
      rfl
    · rw [List.head?_append, Option.or_of_isSome (by simp [naturalText_ne_nil])] at heq
      exact absurd heq (head?_naturalText_ne hn)
  have hwhole : integerPart? (naturalText n ++ List.replicate z '0' ++ '.' :: '0' :: rest) = _ :=
    integerPart?_digits hdigits hne hhead (by simp)
  rw [Nat.ofDigitChars_append, Nat.ofDigitChars_replicate_zero, ofDigitChars_naturalText] at hwhole
  have hfraction : fractionPart (10 ^ z * n) ('.' :: (['0'] ++ rest)) = _ :=
    fractionPart_digits (10 ^ z * n) (by simp) (by simp) h.not_digit
  -- The zero after the point is one more zero of the whole part, a power of ten further down.
  have hvalue : Double.ofDecimal negative (Nat.ofDigitChars 10 ['0'] (10 ^ z * n)) (-1) =
      Double.ofDecimal negative n z := by
    have hpow : Double.ofDecimal negative (n * 10 ^ (z + 1)) (-1) = _ :=
      Double.ofDecimal_mul_pow n (z + 1) (-1)
    rw [show (-1 : Int) + ((z + 1 : Nat) : Int) = z by omega] at hpow
    rw [← hpow]
    congr 1
    rw [Nat.ofDigitChars_cons, Nat.ofDigitChars_nil, Nat.sub_self, Nat.add_zero, Nat.pow_succ]
    ring
  rw [List.append_assoc _ ['.', '0'], List.cons_append, List.cons_append, List.nil_append]
  simp only [numberBody, hwhole]
  rw [List.cons_append, List.nil_append] at hfraction
  simp only [hfraction, numberOfParts, exponentPart?_delimited h]
  rw [if_neg (by simp)]
  exact congrArg (fun x => some (float x, rest)) hvalue

/-- A number with digits on both sides of the point. -/
theorem numberBody_split {n k : Nat} (hn : n ≠ 0) (hk : 0 < k) (hlt : k < (naturalText n).length) :
    numberBody negative ((naturalText n).take k ++ '.' :: (naturalText n).drop k ++ rest) =
      some (.float (.ofDecimal negative n (-(((naturalText n).length - k : Nat) : Int))),
        rest) := by
  have htake : ∀ c ∈ (naturalText n).take k, c.isDigit = true :=
    fun c hc => isDigit_of_mem_naturalText (List.mem_of_mem_take hc)
  have hdrop : ∀ c ∈ (naturalText n).drop k, c.isDigit = true :=
    fun c hc => isDigit_of_mem_naturalText (List.mem_of_mem_drop hc)
  have htakeNe : (naturalText n).take k ≠ [] := by
    simp [naturalText_ne_nil]
    omega
  have hdropNe : (naturalText n).drop k ≠ [] := by
    simp
    omega
  -- Only a zero begins with one, and this number is not zero.
  have hhead : ((naturalText n).take k).head? = some '0' → (naturalText n).take k = ['0'] := by
    rw [List.head?_take, if_neg (by omega)]
    exact fun heq => absurd heq (head?_naturalText_ne hn)
  have hwhole : integerPart? ((naturalText n).take k ++
      '.' :: ((naturalText n).drop k ++ rest)) = _ :=
    integerPart?_digits htake htakeNe hhead (by simp)
  have hfraction := fractionPart_digits (Nat.ofDigitChars 10 ((naturalText n).take k) 0) hdrop
    hdropNe h.not_digit
  rw [← Nat.ofDigitChars_append, List.take_append_drop, ofDigitChars_naturalText,
    List.length_drop] at hfraction
  rw [List.append_assoc, List.cons_append]
  simp only [numberBody, hwhole, hfraction, numberOfParts, exponentPart?_delimited h]
  rw [if_neg (by omega)]

/-- A number with an exponent: one digit stands before the point. -/
theorem numberBody_exponent {n : Nat} (hn : n ≠ 0) {c : Char} {ds : List Char}
    (hds : naturalText n = c :: ds) (style : DecimalStyle) (e : Int) :
    numberBody negative (c :: ((if ds.isEmpty then [] else '.' :: ds) ++
        'e' :: Decimal.exponentText style e) ++ rest) =
      some (.float (.ofDecimal negative n (e - (ds.length : Int))), rest) := by
  have hdigits : ∀ d ∈ c :: ds, d.isDigit = true :=
    fun d hd => isDigit_of_mem_naturalText (hds ▸ hd)
  have hn' : Nat.ofDigitChars 10 (c :: ds) 0 = n := by
    rw [← hds, ofDigitChars_naturalText]
  have hhead : ['0'].head? = some c → False := by
    intro heq
    rw [List.head?_cons, Option.some.injEq] at heq
    exact head?_naturalText_ne hn (by rw [hds, ← heq]; rfl)
  -- One digit, or one digit and a point before the others.
  have hwhole (tail : List Char) (htail : ∀ d ∈ tail.head?, d.isDigit = false) :
      integerPart? ([c] ++ tail) = some (Nat.ofDigitChars 10 [c] 0, tail) := by
    apply integerPart?_digits (by simpa using hdigits c List.mem_cons_self) (by simp) _ htail
    intro heq
    exact absurd (show ['0'].head? = some c from heq.symm) hhead
  have hexponent := exponentPart?_text style e h.not_digit
  cases hcase : ds with
  | nil =>
    subst hcase
    have hpart : fractionPart (Nat.ofDigitChars 10 [c] 0)
        ('e' :: (Decimal.exponentText style e ++ rest)) = _ :=
      fractionPart_delimited _ (by simp)
    have hread := hwhole ('e' :: (Decimal.exponentText style e ++ rest)) (by simp)
    rw [hn'] at hpart hread
    rw [List.cons_append, List.nil_append] at hread
    simp only [List.isEmpty_nil, if_true, List.nil_append, List.cons_append, numberBody, hread,
      hpart, numberOfParts, hexponent]
    rfl
  | cons d ds' =>
    rw [← hcase]
    have hne : ds ≠ [] := by simp [hcase]
    have hread := hwhole ('.' :: (ds ++ 'e' :: (Decimal.exponentText style e ++ rest))) (by simp)
    have hpart : fractionPart (Nat.ofDigitChars 10 [c] 0)
        ('.' :: (ds ++ 'e' :: (Decimal.exponentText style e ++ rest))) = _ :=
      fractionPart_digits _ (fun d hd => hdigits d (List.mem_cons_of_mem _ hd)) hne (by simp)
    rw [← Nat.ofDigitChars_append, List.singleton_append, hn'] at hpart
    rw [List.singleton_append] at hread
    have hempty : ds.isEmpty = false := by simpa using hne
    simp only [hempty, Bool.false_eq_true, if_false, List.cons_append, List.append_assoc,
      numberBody, hread, hpart, numberOfParts, hexponent]

/-- Every layout of a decimal is read as that decimal. -/
theorem numberBody_layout {d : Decimal} (hd : d.digits = 0 → d.exponent = 0) :
    numberBody negative (d.layout Double.style ++ rest) =
      some (.float (.ofDecimal negative d.digits d.exponent), rest) := by
  have hlen := List.length_pos_iff.2 (naturalText_ne_nil d.digits)
  have hzero : d.digits = 0 → (naturalText d.digits).length = 1 := by
    intro hz
    rw [hz]
    rfl
  unfold Decimal.layout
  dsimp only
  -- A point before the digits, after them or among them, and last the form with an exponent.
  split
  · rename_i hpositional
    split
    · rename_i hneg
      rw [numberBody_leadingZeros negative h]
      congr 4
      omega
    · rename_i hnonneg
      split
      · rename_i hwhole
        rw [numberBody_whole negative h fun hz => by have := hzero hz; have := hd hz; omega]
        congr 4
        omega
      · rename_i hsplit
        have hn : d.digits ≠ 0 := fun hz => by have := hzero hz; omega
        rw [numberBody_split negative h hn (by omega) (by omega)]
        congr 4
        omega
  · rename_i hscientific
    have hn : d.digits ≠ 0 := by
      intro hz
      have hone := hzero hz
      have he := hd hz
      simp only [hone, he, Double.style] at hscientific
      exact hscientific rfl
    obtain ⟨c, ds, hds, -⟩ := exists_naturalText d.digits
    rw [hds]
    rw [hds, List.length_cons] at hlen
    dsimp only
    rw [numberBody_exponent negative h hn hds]
    congr 4
    rw [List.length_cons]
    omega

end Layout

/-- The first character of a decimal is a digit. -/
theorem exists_layout (d : Decimal) :
    ∃ c cs, d.layout Double.style = c :: cs ∧ c.isDigit = true := by
  obtain ⟨c, ds, hds, hc⟩ := exists_naturalText d.digits
  unfold Decimal.layout
  dsimp only
  rw [hds]
  split
  · split
    · exact ⟨'0', _, rfl, rfl⟩
    · split
      · exact ⟨c, _, rfl, hc⟩
      · rw [List.take_succ_cons]
        exact ⟨c, _, rfl, hc⟩
  · exact ⟨c, _, rfl, hc⟩

/-- Every finite double reads back as itself, the sign of zero included. -/
theorem number?_text {x : Double} (hx : x.isFinite = true) (h : Delimited rest) :
    number? (x.text.toList ++ rest) = some (.float x, rest) := by
  cases x with
  | nan => cases hx
  | infinite negative => cases hx
  | finite negative m e hc =>
    have hread {d : Decimal} (hd : d.digits = 0 → d.exponent = 0)
        (hvalue : Double.ofDecimal negative d.digits d.exponent = .finite negative m e hc) :
        number? (((if negative then ['-'] else []) ++ d.layout Double.style) ++ rest) =
          some (.float (.finite negative m e hc), rest) := by
      obtain ⟨c, cs, hcs, hdigit⟩ := exists_layout d
      have hbody := numberBody_layout negative h hd
      rw [hvalue] at hbody
      rw [hcs, List.cons_append] at hbody
      rw [List.append_assoc, hcs, List.cons_append,
        number?_signed negative (isDigit_ne_minus hdigit), hbody]
    rw [Double.text, String.toList_ofList]
    by_cases hm : m = 0
    · -- A zero keeps its sign, and its only canonical exponent is the least one.
      rw [if_pos hm]
      apply hread (fun _ => rfl)
      subst hm
      obtain rfl : e = -1074 := by
        rcases hc.2.2.2 with hbig | hleast
        · exact absurd hbig (by decide)
        · exact hleast
      rfl
    · rw [if_neg hm]
      obtain ⟨hdigits, hvalue⟩ := Double.ofDecimal_shortest negative hc hm
      exact hread (fun hz => absurd hz hdigits) hvalue

end PageBuilder.Json
