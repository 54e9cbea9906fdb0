import PageBuilder.Draft.Basic
import PageBuilder.Proofs.Number.Limit
import PageBuilder.Proofs.Page.Attributes
import PageBuilder.Proofs.Page.Links

/-!
# Ids that are handed out are new

A source is ahead of a page when every id of the page that it could hand out has a smaller number
than the next one.  Moving a source past the ids of a page puts it ahead (`ahead_of_advancePast`),
and ids drawn from a source that is ahead are different from each other and from all ids of the
page (`drawMany_fresh`).

A source that is near the limit on digits cannot hand out many more ids (`exhausted?_eq_none_iff`).
Those that it does hand out can be read again (`reads_idOf`).

The ids of a document are a narrower kind: all of them make sense to every source
(`reads_of_isValidId`), and an id that is handed out is one unless it is too long
(`isValidId_idOf`).
-/

namespace PageBuilder.IdSource

open Number

variable {source : IdSource} {page : Page}

/-! ## Reading the number of an id -/

theorem afterWord?_append (word cs : List Char) :
    Json.afterWord? word (word ++ cs) = some cs := by
  induction word with
  | nil => rfl
  | cons c word ih => simp [Json.afterWord?, ih]

theorem afterStem?_append (source : IdSource) (s : String) :
    source.afterStem? (source.stem ++ s) = some s := by
  rw [afterStem?, String.toList_append, afterWord?_append, Option.map_some, String.ofList_toList]

/-- What is read of an id that is handed out is its number, whatever the limit on digits. -/
theorem number?_idOf_eq (source : IdSource) (n : Nat) :
    source.number? (source.idOf n) =
      if digitLimit < (naturalText n).length then .error (.longNumeral (naturalText n).length)
      else .ok (some (n : Int)) := by
  have hdigits : ∀ c ∈ naturalText n, c.isDigit = true := fun c => isDigit_of_mem_naturalText
  have hlike : Text.isDigitLikeText (String.ofList (naturalText n)) = true := by
    rw [Text.isDigitLikeText, String.toList_ofList, Bool.and_eq_true, List.all_eq_true]
    refine ⟨?_, fun c hc => isDigitLike_of_isDigit (hdigits c hc)⟩
    simp [naturalText_ne_nil]
  rw [number?, idOf, afterStem?_append]
  simp only [numeral, hlike, if_true]
  rw [readInteger_eq hlike, String.toList_ofList, leadingDecimals_of_isDigit hdigits,
    integer?_ofDigits hdigits (naturalText_ne_nil n), ofDigitChars_naturalText]
  by_cases hlong : digitLimit < (naturalText n).length
  · rw [if_pos hlong, if_pos hlong]
    rfl
  · rw [if_neg hlong, if_neg hlong]

theorem number?_idOf (source : IdSource) {n : Nat} (h : fits n = true) :
    source.number? (source.idOf n) = .ok (some (n : Int)) := by
  rw [number?_idOf_eq, if_neg (Nat.not_lt.2 (length_naturalText_of_fits h))]

theorem idOf_injective {m n : Nat} (h : source.idOf m = source.idOf n) : m = n := by
  have htext : (numeral m).toList = (numeral n).toList := by
    have := congrArg String.toList h
    rw [idOf, idOf, String.toList_append, String.toList_append] at this
    exact List.append_cancel_left this
  have hdigits : naturalText m = naturalText n := by
    simpa only [numeral, String.toList_ofList] using htext
  rw [← ofDigitChars_naturalText m, ← ofDigitChars_naturalText n, hdigits]

/-- Which number an id has depends on the stem alone. -/
theorem number?_congr {other : IdSource} (h : other.stem = source.stem) (id : String) :
    other.number? id = source.number? id := by
  simp only [number?, afterStem?, h]

theorem idOf_congr {other : IdSource} (h : other.stem = source.stem) (n : Int) :
    other.idOf n = source.idOf n := by
  simp only [idOf, h]

/-- An id makes sense to a source: its number can be told, if it has one. -/
def Reads (source : IdSource) (id : String) : Prop :=
  ∃ number, source.number? id = .ok number

theorem reads_congr {other : IdSource} (h : other.stem = source.stem) (id : String) :
    other.Reads id ↔ source.Reads id := by
  simp only [Reads, number?_congr h]

theorem reads_idOf (source : IdSource) {n : Nat} (h : fits n = true) :
    source.Reads (source.idOf n) :=
  ⟨_, source.number?_idOf h⟩

/-- Of an id that is handed out and makes sense, the number can be told. -/
theorem number?_idOf_of_reads {n : Nat} (h : source.Reads (source.idOf n)) :
    source.number? (source.idOf n) = .ok (some (n : Int)) := by
  obtain ⟨number, hnumber⟩ := h
  rw [number?_idOf_eq] at hnumber ⊢
  split at hnumber
  · cases hnumber
  · rename_i hshort
    rw [if_neg hshort]

theorem append_of_afterWord? {word cs rest : List Char}
    (h : Json.afterWord? word cs = some rest) : cs = word ++ rest := by
  induction word generalizing cs with
  | nil =>
    cases h
    rfl
  | cons w word ih =>
    cases cs with
    | nil => cases h
    | cons c cs =>
      rw [Json.afterWord?] at h
      split at h
      · rename_i hw
        rw [hw, ih h, List.cons_append]
      · cases h

/-! ## Valid ids -/

theorem mem_withoutFinalNewline {c : Char} {cs : List Char} (h : c ∈ cs) :
    c ∈ Element.withoutFinalNewline cs ∨ c = '\n' := by
  induction cs with
  | nil => cases h
  | cons a rest ih =>
    cases rest with
    | nil =>
      obtain rfl : c = a := by simpa using h
      by_cases hc : c = '\n'
      · exact Or.inr hc
      · simp [Element.withoutFinalNewline, hc]
    | cons b rest =>
      rw [Element.withoutFinalNewline]
      · rcases List.mem_cons.1 h with rfl | hm
        · exact Or.inl List.mem_cons_self
        · exact (ih hm).imp_left (List.mem_cons_of_mem _)
      · simp

theorem lt_of_mem_validId {id : String} (h : Element.isValidId id = true) {c : Char}
    (hc : c ∈ id.toList) : c.toNat < 0x80 := by
  have hlower {c : Char} (hl : Element.isLowerAscii c = true) : c.toNat < 0x80 := by
    simp only [Element.isLowerAscii, Bool.and_eq_true, decide_eq_true_eq] at hl
    exact Nat.lt_of_le_of_lt hl.2 (by decide)
  have hid {c : Char} (hi : Element.isIdChar c = true) : c.toNat < 0x80 := by
    simp only [Element.isIdChar, Bool.or_eq_true, decide_eq_true_eq] at hi
    rcases hi with (hl | hd) | rfl
    · exact hlower hl
    · exact Nat.lt_of_le_of_lt (toNat_of_isDigit hd).2 (by decide)
    · decide
  unfold Element.isValidId at h
  rcases mem_withoutFinalNewline hc with hm | rfl
  · cases hcs : Element.withoutFinalNewline id.toList with
    | nil => simp [hcs] at hm
    | cons a rest =>
      rw [hcs] at hm h
      simp only [Bool.and_eq_true, List.all_eq_true] at h
      rcases List.mem_cons.1 hm with rfl | hr
      · exact hlower h.1.1
      · exact hid (h.1.2 c hr)
  · decide

/-- The only digit-like characters of ASCII are its digits. -/
theorem isDigit_of_isDigitLike {c : Char} (h : Text.isDigitLike c = true) (hc : c.toNat < 0x80) :
    c.isDigit = true := by
  have hruns : ∀ run ∈ Text.decimalRuns, run.1 < 0x80 → run = (0x30, 0x39) := by decide
  have hothers : ∀ run ∈ Text.otherDigitRuns, ¬ run.1 < 0x80 := by decide
  rw [Text.isDigitLike, Bool.or_eq_true, Text.within_iff, Text.within_iff] at h
  rcases h with ⟨run, hm, hlow, hhigh⟩ | ⟨run, hm, hlow, -⟩
  · obtain rfl := hruns run hm (by omega)
    simp only [Char.isDigit, Bool.and_eq_true, decide_eq_true_eq]
    exact ⟨hlow, hhigh⟩
  · exact absurd (Nat.lt_of_le_of_lt hlow hc) (hothers run hm)

/-- A valid id has at most sixty-four characters and a line feed. -/
theorem length_of_isValidId {id : String} (h : Element.isValidId id = true) :
    id.toList.length ≤ 65 := by
  have hlen : id.toList.length ≤ (Element.withoutFinalNewline id.toList).length + 1 := by
    rcases Props.withoutFinalNewline_cases id.toList with heq | heq
    · exact heq ▸ Nat.le_succ _
    · exact Nat.le_of_eq (by conv => lhs; rw [heq, List.length_append, List.length_singleton])
  unfold Element.isValidId at h
  split at h
  · cases h
  · rename_i c rest hcs
    simp only [Bool.and_eq_true, decide_eq_true_eq] at h
    rw [hcs, List.length_cons] at hlen
    omega

/-- Every id that a document may have makes sense to every source. -/
theorem reads_of_isValidId (source : IdSource) {id : String}
    (h : Element.isValidId id = true) : source.Reads id := by
  unfold Reads number? afterStem?
  cases hafter : Json.afterWord? source.stem.toList id.toList with
  | none => exact ⟨none, rfl⟩
  | some digits =>
    simp only [Option.map_some]
    split
    · rename_i hlike
      rw [Text.isDigitLikeText, String.toList_ofList, Bool.and_eq_true, List.all_eq_true] at hlike
      have hdigits : ∀ c ∈ digits, c.isDigit = true := by
        intro c hc
        apply isDigit_of_isDigitLike (hlike.2 c hc)
        apply lt_of_mem_validId h
        rw [append_of_afterWord? hafter]
        exact List.mem_append_right _ hc
      have hlen : digits.length ≤ digitLimit := by
        have hid := length_of_isValidId h
        rw [append_of_afterWord? hafter, List.length_append] at hid
        exact Nat.le_trans (by omega) (show 65 ≤ digitLimit by decide)
      -- Digits of ASCII are a numeral, so reading them cannot fail.
      rw [readInteger_ofDigits hdigits (by simpa using hlike.1) hlen]
      exact ⟨_, rfl⟩
    · exact ⟨none, rfl⟩

theorem withoutFinalNewline_eq {cs : List Char} (h : '\n' ∉ cs) :
    Element.withoutFinalNewline cs = cs := by
  induction cs with
  | nil => rfl
  | cons c rest ih =>
    obtain ⟨hc, hrest⟩ := not_or.1 (mt List.mem_cons.2 h)
    cases rest with
    | nil => rw [Element.withoutFinalNewline, if_neg fun heq => hc heq.symm]
    | cons d rest =>
      rw [Element.withoutFinalNewline, ih hrest]
      simp

theorem toList_idOf (hstem : source.stem = ({} : IdSource).stem) (n : Nat) :
    (source.idOf n).toList = 'e' :: 'l' :: '_' :: naturalText n := by
  have htext : (numeral n).toList = naturalText n := String.toList_ofList
  rw [idOf, hstem, String.toList_append, htext]
  rfl

theorem newline_not_mem_idOf (hstem : source.stem = ({} : IdSource).stem) (n : Nat) :
    '\n' ∉ (source.idOf n).toList := by
  rw [toList_idOf hstem]
  intro hm
  have hm : '\n' ∈ naturalText n := by simpa using hm
  exact absurd (isDigit_of_mem_naturalText hm) (by decide)

/-- The ids that are handed out under the stem that sources begin with are valid, unless they are
too long. -/
theorem isValidId_idOf (hstem : source.stem = ({} : IdSource).stem) {n : Nat}
    (hlen : (source.idOf n).length ≤ 64) : Element.isValidId (source.idOf n) = true := by
  have hlen : (naturalText n).length + 3 ≤ 64 := by
    rwa [← String.length_toList, toList_idOf hstem] at hlen
  rw [Element.isValidId, withoutFinalNewline_eq (newline_not_mem_idOf hstem n), toList_idOf hstem]
  simp only [Bool.and_eq_true, decide_eq_true_eq, List.all_eq_true]
  refine ⟨⟨by decide, ?_⟩, ?_⟩
  · intro c hc
    simp only [List.mem_cons] at hc
    rcases hc with rfl | rfl | hc
    · decide
    · decide
    · simp [Element.isIdChar, isDigit_of_mem_naturalText hc]
  · show (naturalText n).length + 2 ≤ 63
    omega

/-! ## Moving past ids -/

@[simp] theorem stem_pass (source : IdSource) (number : Option Int) :
    (source.pass number).stem = source.stem := by
  cases number <;> rfl

theorem lt_next_pass (source : IdSource) (n : Int) : n < (source.pass (some n)).next := by
  simp only [pass]
  omega

/-- A source moved past ids can read them all, and its next number is above theirs. -/
theorem advancePast_ok {ids : List String} {after : IdSource}
    (h : advancePast ids source = .ok () after) :
    after.stem = source.stem ∧ source.next ≤ after.next ∧
      ∀ id ∈ ids, source.Reads id ∧ ∀ n, source.number? id = .ok (some n) → n < after.next := by
  induction ids generalizing source with
  | nil =>
    cases h
    exact ⟨rfl, Int.le_refl _, by simp⟩
  | cons id rest ih =>
    rw [advancePast] at h
    split at h
    · cases h
    · rename_i number hnumber
      obtain ⟨hstem, hle, hall⟩ := ih h
      rw [stem_pass] at hstem
      have hpass := source.next_le_pass number
      refine ⟨hstem, Int.le_trans hpass hle, ?_⟩
      intro x hx
      rcases List.mem_cons.1 hx with rfl | hx
      · refine ⟨⟨number, hnumber⟩, ?_⟩
        intro n hn
        cases hnumber.symm.trans hn
        exact Int.lt_of_lt_of_le (source.lt_next_pass n) hle
      · obtain ⟨hreads, hlt⟩ := hall x hx
        rw [reads_congr (stem_pass source number)] at hreads
        exact ⟨hreads, fun n hn => hlt n ((number?_congr (stem_pass source number) x).trans hn)⟩

/-- It goes no further than the ids make it go. -/
theorem next_advancePast_le {ids : List String} {after : IdSource} {limit : Int}
    (h : advancePast ids source = .ok () after) (hn : source.next ≤ limit)
    (hall : ∀ id ∈ ids, ∀ n, source.number? id = .ok (some n) → n < limit) :
    after.next ≤ limit := by
  induction ids generalizing source with
  | nil =>
    cases h
    exact hn
  | cons id rest ih =>
    rw [advancePast] at h
    split at h
    · cases h
    · rename_i number hnumber
      refine ih h ?_ fun x hx n hn => ?_
      · cases number with
        | none => exact hn
        | some n => exact Int.max_le.2 ⟨hn, hall id List.mem_cons_self n hnumber⟩
      · rw [number?_congr (stem_pass source number)] at hn
        exact hall x (List.mem_cons_of_mem _ hx) n hn

theorem exists_advancePast {ids : List String} (h : ∀ id ∈ ids, source.Reads id) :
    ∃ after, advancePast ids source = .ok () after := by
  induction ids generalizing source with
  | nil => exact ⟨source, rfl⟩
  | cons id rest ih =>
    obtain ⟨number, hnumber⟩ := h id List.mem_cons_self
    obtain ⟨after, hafter⟩ := @ih (source.pass number) fun x hx =>
      (reads_congr (stem_pass source number) x).2 (h x (List.mem_cons_of_mem _ hx))
    exact ⟨after, by simp only [advancePast, hnumber, hafter]⟩

/-- A page whose ids make sense to a source can be edited. -/
theorem exists_ofPage (catalog : Catalog)
    (h : ∀ id ∈ page.elements.keys, source.Reads id) :
    ∃ after, Draft.ofPage catalog source page = .ok ⟨catalog.orBuiltIn, after, page⟩ := by
  obtain ⟨after, hafter⟩ := exists_advancePast h
  refine ⟨after, ?_⟩
  rw [Draft.ofPage, hafter]

/-- The draft of a page holds that page, and its source has moved past the ids. -/
theorem exists_of_ofPage {catalog : Catalog} {draft : Draft}
    (h : Draft.ofPage catalog source page = .ok draft) :
    ∃ after, advancePast page.elements.keys source = .ok () after ∧
      draft = ⟨catalog.orBuiltIn, after, page⟩ := by
  unfold Draft.ofPage at h
  split at h
  · rename_i after hafter
    cases h
    exact ⟨after, hafter, rfl⟩
  · cases h

theorem ofPage_eq {catalog : Catalog} {draft : Draft}
    (h : Draft.ofPage catalog source page = .ok draft) :
    draft.catalog = catalog.orBuiltIn ∧ draft.page = page := by
  obtain ⟨after, -, rfl⟩ := exists_of_ofPage h
  exact ⟨rfl, rfl⟩

/-! ## Sources ahead of a page -/

/-- No id that a source is still to hand out is in use on a page. -/
structure Ahead (source : IdSource) (page : Page) : Prop where
  next_nonneg : 0 ≤ source.next
  lt_next : ∀ n : Nat, page.contains (source.idOf n) = true → (n : Int) < source.next

theorem ahead_of_advancePast {after : IdSource} (hn : 0 ≤ source.next)
    (h : advancePast page.elements.keys source = .ok () after) : after.Ahead page := by
  obtain ⟨hstem, hle, hall⟩ := advancePast_ok h
  refine ⟨Int.le_trans hn hle, ?_⟩
  intro n hc
  rw [idOf_congr hstem] at hc
  obtain ⟨hreads, hlt⟩ := hall _ ((page.elements.contains_iff _).1 hc)
  exact hlt n (number?_idOf_of_reads hreads)

theorem Ahead.not_contains (h : source.Ahead page) {n : Nat} (hn : source.next ≤ n) :
    page.contains (source.idOf n) = false := by
  cases hc : page.contains (source.idOf n) with
  | false => rfl
  | true =>
    have := h.lt_next n hc
    omega

/-- A source stays ahead when it moves on and the page keeps or loses ids. -/
theorem Ahead.mono {other : IdSource} {page' : Page} (h : source.Ahead page)
    (hstem : other.stem = source.stem) (hle : source.next ≤ other.next)
    (hsub : ∀ id, page'.contains id = true → page.contains id = true ∨
      ∃ n : Nat, id = source.idOf n ∧ (n : Int) < other.next) : other.Ahead page' := by
  refine ⟨Int.le_trans h.next_nonneg hle, ?_⟩
  intro n hc
  rw [idOf_congr hstem] at hc
  rcases hsub _ hc with hc | ⟨m, hm, hlt⟩
  · exact Int.lt_of_lt_of_le (h.lt_next n hc) hle
  · rw [idOf_injective hm]
    exact hlt

/-! ## Drawing ids -/

theorem next_draw (source : IdSource) : source.draw.2 = { source with next := source.next + 1 } :=
  rfl

/-- A number of ids can be drawn if all their numbers can be written. -/
theorem exhausted?_eq_none_iff {count : Nat} :
    source.exhausted? count = none ↔ ∀ i : Nat, i < count → fits (source.next + i) = true := by
  induction count generalizing source with
  | zero => simp [exhausted?]
  | succ count ih =>
    rw [exhausted?]
    by_cases hfits : fits source.next = true
    · rw [if_pos hfits, ih, next_draw]
      constructor
      · intro h i hi
        cases i with
        | zero => simpa using hfits
        | succ i =>
          have := h i (by omega)
          rwa [show source.next + ((i + 1 : Nat) : Int) = source.next + 1 + i by omega]
      · intro h i hi
        have := h (i + 1) (by omega)
        rwa [show source.next + ((i + 1 : Nat) : Int) = source.next + 1 + i by omega] at this
    · rw [if_neg hfits]
      simp only [reduceCtorEq, false_iff]
      exact fun h => hfits (by simpa using h 0 (by omega))

/-- If they cannot, the ids before the first of those numbers have been drawn. -/
theorem exhausted?_eq_some {count : Nat} {stuck : IdSource}
    (h : source.exhausted? count = some stuck) :
    ∃ i < count, stuck = { source with next := source.next + i } ∧ fits stuck.next = false := by
  induction count generalizing source with
  | zero => cases h
  | succ count ih =>
    rw [exhausted?] at h
    split at h
    · obtain ⟨i, hi, rfl, hfits⟩ := ih h
      refine ⟨i + 1, by omega, ?_, hfits⟩
      simp only [next_draw, mk.injEq, and_true]
      omega
    · rename_i hfits
      cases h
      exact ⟨0, by omega, by simp, by simpa using hfits⟩

/-- Of a single id it is the next number that counts, and the source stays where it is. -/
theorem exhausted?_one (source : IdSource) :
    source.exhausted? 1 = if fits source.next then none else some source :=
  rfl

theorem exhausted?_one_isSome (source : IdSource) :
    (source.exhausted? 1).isSome = !fits source.next := by
  rw [exhausted?_one]
  split <;> simp [*]

/-- The ids a source hands out until it has become another one; those it is moved past on the way
are counted as handed out. -/
def HandedOut (source after : IdSource) (id : String) : Prop :=
  ∃ n : Int, source.next ≤ n ∧ n < after.next ∧ id = source.idOf n

theorem HandedOut.mono {after wider final : IdSource} {id : String} (h : source.HandedOut after id)
    (hstem : source.stem = wider.stem) (hle : wider.next ≤ source.next)
    (hle' : after.next ≤ final.next) : wider.HandedOut final id := by
  obtain ⟨n, hn, hlt, rfl⟩ := h
  exact ⟨n, Int.le_trans hle hn, Int.lt_of_lt_of_le hlt hle', idOf_congr hstem n⟩

/-- What has been handed out is not handed out later. -/
theorem HandedOut.not_handedOut {after later final : IdSource} {id : String}
    (h : source.HandedOut after id) (hn : 0 ≤ source.next) (hstem : later.stem = source.stem)
    (hle : after.next ≤ later.next) : ¬ later.HandedOut final id := by
  rintro ⟨m, hm, -, heq⟩
  obtain ⟨n, hn', hlt, rfl⟩ := h
  obtain ⟨i, rfl⟩ := Int.eq_ofNat_of_zero_le (Int.le_trans hn hn')
  obtain ⟨j, rfl⟩ := Int.eq_ofNat_of_zero_le (show 0 ≤ m by omega)
  rw [idOf_congr hstem] at heq
  have := idOf_injective heq
  omega

/-- What is handed out by a source that is ahead of a page is not in use on the page. -/
theorem HandedOut.not_contains {after : IdSource} {id : String} (h : source.HandedOut after id)
    (ha : source.Ahead page) : page.contains id = false := by
  obtain ⟨n, hn, -, rfl⟩ := h
  obtain ⟨m, rfl⟩ := Int.eq_ofNat_of_zero_le (Int.le_trans ha.next_nonneg hn)
  exact ha.not_contains hn

theorem drawMany_eq (count : Nat) (source : IdSource) :
    drawMany count source = ((List.range count).map fun i : Nat => source.idOf (source.next + i),
      { source with next := source.next + count }) := by
  induction count generalizing source with
  | zero => simp [drawMany]
  | succ count ih =>
    simp only [drawMany, draw, ih, List.range_succ_eq_map, List.map_cons, List.map_map,
      Prod.mk.injEq, List.cons.injEq, mk.injEq, and_true]
    refine ⟨⟨by simp, List.map_congr_left ?_⟩, by omega⟩
    intro i _
    simp only [Function.comp_apply, idOf]
    congr 2
    omega

/-- What has been handed out when ids have been drawn are those ids. -/
theorem handedOut_drawMany_iff {count : Nat} {id : String} :
    source.HandedOut (drawMany count source).2 id ↔ id ∈ (drawMany count source).1 := by
  rw [drawMany_eq]
  simp only [HandedOut, List.mem_map, List.mem_range]
  constructor
  · rintro ⟨n, hle, hlt, rfl⟩
    obtain ⟨i, hi⟩ := Int.le.dest hle
    exact ⟨i, by omega, by rw [hi]⟩
  · rintro ⟨i, hi, rfl⟩
    exact ⟨source.next + i, by omega, by omega, rfl⟩

/-- Ids drawn from a source that lasts make sense to it. -/
theorem reads_of_mem_drawMany (hn : 0 ≤ source.next) {count : Nat}
    (h : source.exhausted? count = none) {id : String} (hm : id ∈ (drawMany count source).1) :
    source.Reads id := by
  obtain ⟨start, hstart⟩ := Int.eq_ofNat_of_zero_le hn
  rw [drawMany_eq, List.mem_map] at hm
  obtain ⟨i, hi, rfl⟩ := hm
  have hfits := exhausted?_eq_none_iff.1 h i (List.mem_range.1 hi)
  rw [hstart] at hfits ⊢
  exact source.reads_idOf (n := start + i) (by exact_mod_cast hfits)

/-- Ids drawn from a source that is ahead: as many as asked for, different from each other and none
in use; the source is ahead of them afterwards. -/
theorem drawMany_fresh (h : source.Ahead page) {count : Nat} {ids : List String}
    {after : IdSource} (hd : drawMany count source = (ids, after)) :
    ids.length = count ∧ ids.Nodup ∧ (∀ id ∈ ids, page.contains id = false) ∧
      after.stem = source.stem ∧ source.next ≤ after.next ∧
      ∀ id ∈ ids, ∃ n : Nat, id = source.idOf n ∧ (n : Int) < after.next := by
  rw [drawMany_eq] at hd
  cases hd
  -- `Ahead` speaks of natural numbers, and the numbers drawn are none below zero.
  obtain ⟨start, hstart⟩ := Int.eq_ofNat_of_zero_le h.next_nonneg
  have hcast : ∀ i : Nat, source.next + (i : Int) = ((start + i : Nat) : Int) := by
    intro i
    omega
  simp only [hcast]
  refine ⟨by simp, ?_, fun id hm => ?_, trivial, by omega, fun id hm => ?_⟩
  · refine List.pairwise_map.2 (List.nodup_range.imp fun hne heq => hne ?_)
    have := idOf_injective heq
    omega
  all_goals
    obtain ⟨i, hi, rfl⟩ := List.mem_map.1 hm
    have hlt := List.mem_range.1 hi
  · exact h.not_contains (by omega)
  · exact ⟨start + i, rfl, by omega⟩

end PageBuilder.IdSource
