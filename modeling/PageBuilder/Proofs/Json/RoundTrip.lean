import PageBuilder.Proofs.Json.Arranged
import PageBuilder.Proofs.Json.Numbers
import PageBuilder.Proofs.Json.Strings

/-!
# What is printed reads back

The indented text of a value whose objects have distinct keys, and none of whose integers is too
long, is read as that value with its members sorted (`readChars_pretty`).  The proof follows the
value; at each object and array it is an induction over the parts, in the order in which they are
printed.

The reader's fuel is spent on nested calls, each of which has a character of its own to read, so
the length of a text is fuel enough for it.
-/

namespace PageBuilder.Json

open PageBuilder.Text

/-! ## Blanks -/

theorem skipGap_append {gap : List Char} (hgap : ∀ c ∈ gap, isGap c = true) (cs : List Char) :
    skipGap (gap ++ cs) = skipGap cs := by
  rw [skipGap, skipGap, List.dropWhile_append_of_pos hgap]

/-- A character that is no blank is left where it is. -/
theorem skipGap_cons {c : Char} (hc : isGap c = false) (cs : List Char) :
    skipGap (c :: cs) = c :: cs := by
  simp [skipGap, hc]

/-- The line break and indentation at a depth. -/
def lineGap (depth : Nat) : List Char :=
  (prettyStyle.break depth).toList

theorem lineGap_eq (depth : Nat) : lineGap depth = '\n' :: List.replicate (2 * depth) ' ' := by
  simp [lineGap, Style.break, prettyStyle]

theorem isGap_of_mem_lineGap {depth : Nat} {c : Char} (h : c ∈ lineGap depth) :
    isGap c = true := by
  rw [lineGap_eq] at h
  rcases List.mem_cons.1 h with rfl | hblank
  · rfl
  · rw [List.eq_of_mem_replicate hblank]
    rfl

/-- What stands on the next line is read as if it stood here. -/
theorem skipGap_lineGap (depth : Nat) (cs : List Char) :
    skipGap (lineGap depth ++ cs) = skipGap cs :=
  skipGap_append (fun _ => isGap_of_mem_lineGap) cs

/-- A number that ends its line does not run into the next one. -/
theorem delimited_lineGap (depth : Nat) (cs : List Char) : Delimited (lineGap depth ++ cs) := by
  rw [lineGap_eq]
  intro c hc
  obtain rfl : c = '\n' := by simpa using hc.symm
  decide

/-- Nor does it run into a comma. -/
theorem delimited_comma (cs : List Char) : Delimited (',' :: cs) := by
  intro c hc
  obtain rfl : c = ',' := by simpa using hc.symm
  decide

/-! ## Texts of parts -/

theorem toList_join (separator first : String) (rest : List String) :
    (join separator (first :: rest)).toList =
      first.toList ++ rest.flatMap fun s => separator.toList ++ s.toList := by
  induction rest generalizing first with
  | nil => simp [join]
  | cons second rest ih =>
    rw [join, String.toList_append, String.toList_append, ih, List.flatMap_cons]
    · simp
    · simp

theorem toList_enclose_nil (left right : String) (depth : Nat) :
    (prettyStyle.enclose left right depth []).toList = left.toList ++ right.toList :=
  String.toList_append

/-- Between its brackets each part stands on a line of its own, one level deeper. -/
theorem toList_enclose (left right first : String) (depth : Nat) (rest : List String) :
    (prettyStyle.enclose left right depth (first :: rest)).toList =
      left.toList ++ (lineGap (depth + 1) ++ (first.toList ++
        (rest.flatMap (fun s => ',' :: (lineGap (depth + 1) ++ s.toList)) ++
          (lineGap depth ++ right.toList)))) := by
  rw [Style.enclose, if_neg (by simp)]
  simp only [String.toList_append, toList_join, lineGap, List.append_assoc]
  rfl

/-- What the text of a value may begin with. -/
def Opening (c : Char) : Prop :=
  isGap c = false ∧ c ≠ ']' ∧ c ≠ '\ufeff'

instance (c : Char) : Decidable (Opening c) :=
  inferInstanceAs (Decidable (_ ∧ _))

theorem opening_of_isDigit {c : Char} (h : c.isDigit = true) : Opening c := by
  obtain ⟨h1, h2⟩ := Number.toNat_of_isDigit h
  refine ⟨?_, ?_, ?_⟩
  · simp only [isGap, Bool.or_eq_false_iff, decide_eq_false_iff_not]
    refine ⟨⟨⟨?_, ?_⟩, ?_⟩, ?_⟩ <;> (rintro rfl; exact absurd h1 (by decide))
  · rintro rfl
    exact absurd h2 (by decide)
  · rintro rfl
    exact absurd h2 (by decide)

/-- A text that begins with a digit, or with a minus sign and a digit. -/
def Numeric (text : List Char) : Prop :=
  ∃ c cs, c.isDigit = true ∧ (text = c :: cs ∨ text = '-' :: c :: cs)

/-- Integers are printed so. -/
theorem numeric_numeral (n : Int) : Numeric (Number.numeral n).toList := by
  cases n with
  | ofNat n =>
    obtain ⟨c, ds, hds, hc⟩ := exists_naturalText n
    exact ⟨c, ds, hc, Or.inl (by rw [Number.numeral, String.toList_ofList, hds])⟩
  | negSucc n =>
    obtain ⟨c, ds, hds, hc⟩ := exists_naturalText (n + 1)
    exact ⟨c, ds, hc, Or.inr (by rw [Number.numeral, String.toList_ofList, hds])⟩

/-- And so are floating-point numbers that have digits. -/
theorem numeric_text {x : Double} (hx : x.isFinite = true) : Numeric x.text.toList := by
  cases x with
  | nan => cases hx
  | infinite negative => cases hx
  | finite negative m e hc =>
    obtain ⟨c, cs, hcs, hdigit⟩ := exists_layout (if m = 0 then ⟨0, 0⟩ else
      Double.shortest negative m e)
    refine ⟨c, cs, hdigit, ?_⟩
    rw [Double.text, String.toList_ofList, hcs]
    cases negative with
    | true => exact Or.inr rfl
    | false => exact Or.inl rfl

theorem Numeric.opening {text : List Char} (h : Numeric text) :
    ∃ c cs, text = c :: cs ∧ Opening c := by
  obtain ⟨c, cs, hc, rfl | rfl⟩ := h
  · exact ⟨c, cs, rfl, opening_of_isDigit hc⟩
  · exact ⟨'-', c :: cs, rfl, by decide⟩

/-- What is enclosed begins with its left bracket, whatever the parts are. -/
theorem exists_enclose {left : String} {c : Char} (hleft : left.toList = [c]) (style : Style)
    (right : String) (depth : Nat) (parts : List String) :
    ∃ cs, (style.enclose left right depth parts).toList = c :: cs := by
  unfold Style.enclose
  split
  · exact ⟨_, by rw [String.toList_append, hleft]; rfl⟩
  · exact ⟨_, by simp only [String.toList_append, hleft, List.append_assoc]; rfl⟩

/-- No text is empty, and from its first character it is plain that a value begins there. -/
theorem exists_render (style : Style) (depth : Nat) (json : Json) :
    ∃ c cs, (render style depth json).toList = c :: cs ∧ Opening c := by
  cases json with
  | null => exact ⟨'n', ['u', 'l', 'l'], by rw [render]; rfl, by decide⟩
  | bool b =>
    cases b with
    | true => exact ⟨'t', ['r', 'u', 'e'], by rw [render]; rfl, by decide⟩
    | false => exact ⟨'f', ['a', 'l', 's', 'e'], by rw [render]; rfl, by decide⟩
  | int n => exact (numeric_numeral n).opening
  | float x =>
    cases x with
    | nan => exact ⟨'N', ['a', 'N'], by rw [render]; rfl, by decide⟩
    | infinite negative =>
      cases negative with
      | true =>
        exact ⟨'-', ['I', 'n', 'f', 'i', 'n', 'i', 't', 'y'], by rw [render]; rfl, by decide⟩
      | false => exact ⟨'I', ['n', 'f', 'i', 'n', 'i', 't', 'y'], by rw [render]; rfl, by decide⟩
    | finite negative m e hc => exact (numeric_text rfl).opening
  | str s =>
    exact ⟨'"', _, by rw [render, literal, String.toList_ofList]; rfl, by decide⟩
  | array items =>
    obtain ⟨cs, hcs⟩ := exists_enclose (show "[".toList = ['['] from rfl) style "]" depth
      (renderItems style (depth + 1) items)
    exact ⟨'[', cs, hcs, by decide⟩
  | object members =>
    obtain ⟨cs, hcs⟩ := exists_enclose (show "\x7b".toList = ['\x7b'] from rfl) style "\x7d" depth
      ((sortMembers (renderMembers style (depth + 1) members)).map fun m =>
        literal style.char m.1 ++ style.colon ++ m.2)
    exact ⟨'\x7b', cs, hcs, by decide⟩

/-! ## Reading the parts -/

/-- The text of a value is read as the arranged value, as far as it goes. -/
def Readable (json : Json) : Prop :=
  ∀ {depth fuel : Nat} {rest : List Char},
    (render prettyStyle depth json).toList.length ≤ fuel → Delimited rest →
      valueAt fuel ((render prettyStyle depth json).toList ++ rest) = .ok (json.arranged, rest)

variable {fuel : Nat} {rest : List Char}

theorem afterWord?_of_ne {w c : Char} (h : w ≠ c) (word cs : List Char) :
    afterWord? (w :: word) (c :: cs) = none := by
  rw [afterWord?, if_neg h]

/-- No word begins like a number. -/
theorem afterWord?_of_isDigit {word : String} {c : Char} (hc : c.isDigit = true)
    (hhead : ∃ w ws, word.toList = w :: ws ∧ w.isDigit = false) (cs : List Char) :
    afterWord? word.toList (c :: cs) = none := by
  obtain ⟨w, ws, hw, hdigit⟩ := hhead
  rw [hw]
  apply afterWord?_of_ne
  rintro rfl
  rw [hc] at hdigit
  cases hdigit

/-- What was read as a number is kept, if it is no integer of too many digits. -/
theorem keep_of_fits {result : Json × List Char} (hfits : result.1.fits = true) (cs : List Char) :
    (match some result with
      | some (.int n, after) =>
        if Number.fits n then .ok (.int n, after)
        else .error ⟨.longNumeral (Number.naturalText n.natAbs).length, cs⟩
      | some result => .ok result
      | none => .error ⟨.value, cs⟩ : Reading Json) = .ok result := by
  obtain ⟨json, after⟩ := result
  cases json with
  | int n => exact if_pos hfits
  | _ => rfl

/-- A text that begins like a number is read as one, if it is no integer of too many digits. -/
theorem valueAt_number {text : List Char} {result : Json × List Char} (hnum : Numeric text)
    (h : number? (text ++ rest) = some result) (hfits : result.1.fits = true) :
    valueAt (fuel + 1) (text ++ rest) = .ok result := by
  obtain ⟨c, cs, hc, rfl | rfl⟩ := hnum
  · rw [List.cons_append] at h ⊢
    have hnone (word : String) (hhead : ∃ w ws, word.toList = w :: ws ∧ w.isDigit = false) :=
      afterWord?_of_isDigit hc hhead (cs ++ rest)
    unfold valueAt
    split
    · rename_i heq
      cases heq
      cases hc
    · rename_i heq
      cases heq
      cases hc
    · rename_i heq
      cases heq
      cases hc
    · rw [hnone "null" ⟨_, _, rfl, rfl⟩, hnone "true" ⟨_, _, rfl, rfl⟩,
        hnone "false" ⟨_, _, rfl, rfl⟩, hnone "NaN" ⟨_, _, rfl, rfl⟩,
        hnone "Infinity" ⟨_, _, rfl, rfl⟩, hnone "-Infinity" ⟨_, _, rfl, rfl⟩, h]
      exact keep_of_fits hfits _
  · rw [List.cons_append, List.cons_append] at h ⊢
    have hnone (word : String) {w : Char} {ws : List Char} (hw : word.toList = w :: ws)
        (hne : w ≠ '-') : afterWord? word.toList ('-' :: c :: (cs ++ rest)) = none := by
      rw [hw]
      exact afterWord?_of_ne hne ws _
    -- Of the words only this one begins with a minus sign, and its next letter is no digit.
    have hinfinity : afterWord? "-Infinity".toList ('-' :: c :: (cs ++ rest)) = none := by
      have hc' : 'I' ≠ c := by
        rintro rfl
        cases hc
      have hword : "-Infinity".toList = ['-', 'I', 'n', 'f', 'i', 'n', 'i', 't', 'y'] := rfl
      rw [hword, afterWord?, if_pos rfl]
      exact afterWord?_of_ne hc' _ _
    unfold valueAt
    split
    · rename_i heq
      cases heq
    · rename_i heq
      cases heq
    · rename_i heq
      cases heq
    · rw [hnone "null" rfl (by decide), hnone "true" rfl (by decide),
        hnone "false" rfl (by decide), hnone "NaN" rfl (by decide),
        hnone "Infinity" rfl (by decide), hinfinity, h]
      exact keep_of_fits hfits _

/-- A key that is new goes behind the others.  Only for a repeated key does the reader change a
member. -/
theorem setMember_of_not_mem {key : String} {value : Json} {members : List (String × Json)}
    (h : key ∉ members.map Prod.fst) :
    setMember key value members = members ++ [(key, value)] := by
  induction members with
  | nil => rfl
  | cons m rest ih =>
    obtain ⟨k, v⟩ := m
    rw [List.map_cons, List.mem_cons, not_or] at h
    rw [setMember, if_neg (fun hk => h.1 hk.symm), ih h.2, List.cons_append]

/-- So no blank is skipped in front of a value. -/
theorem skipGap_render (depth : Nat) (json : Json) (tail : List Char) :
    skipGap ((render prettyStyle depth json).toList ++ tail) =
      (render prettyStyle depth json).toList ++ tail := by
  obtain ⟨c, cs, hcs, hopening⟩ := exists_render prettyStyle depth json
  rw [hcs, List.cons_append, skipGap_cons hopening.1]

/-- The items of an array after its opening bracket. -/
theorem itemsAt_text (depth fuel : Nat) (rest : List Char) {item : Json} {items : List Json}
    (before : List Json)
    (hread : ∀ j ∈ item :: items, Readable j)
    (hfuel : ((render prettyStyle (depth + 1) item).toList ++ items.flatMap fun j =>
      ',' :: (lineGap (depth + 1) ++ (render prettyStyle (depth + 1) j).toList)).length < fuel) :
    itemsAt fuel before ((render prettyStyle (depth + 1) item).toList ++
        (items.flatMap (fun j =>
          ',' :: (lineGap (depth + 1) ++ (render prettyStyle (depth + 1) j).toList)) ++
          (lineGap depth ++ ']' :: rest))) =
      .ok (.array (before.reverse ++ (item :: items).map arranged), rest) := by
  -- By induction on the items that are still to come; those that have been read stand in `before`,
  -- last one first, and the fuel covers what is left.
  induction items generalizing fuel item before with
  | nil =>
    obtain ⟨fuel, rfl⟩ := Nat.exists_eq_add_of_lt (Nat.zero_lt_of_lt hfuel)
    rw [Nat.zero_add, List.flatMap_nil, List.append_nil] at hfuel
    rw [Nat.zero_add, itemsAt, List.flatMap_nil, List.nil_append,
      hread item List.mem_cons_self (by omega) (delimited_lineGap depth _)]
    dsimp only
    rw [skipGap_lineGap, skipGap_cons (by decide)]
    simp
  | cons second items ih =>
    obtain ⟨fuel, rfl⟩ := Nat.exists_eq_add_of_lt (Nat.zero_lt_of_lt hfuel)
    rw [Nat.zero_add, List.flatMap_cons] at hfuel
    simp only [List.length_append, List.length_cons] at hfuel
    rw [Nat.zero_add, itemsAt, List.flatMap_cons, List.cons_append, List.cons_append,
      hread item List.mem_cons_self (by omega) (delimited_comma _)]
    dsimp only
    -- After the comma the reader is where it was, with one item more behind it.
    rw [skipGap_cons (by decide), List.append_assoc, List.append_assoc]
    show itemsAt fuel (item.arranged :: before) (skipGap _) = _
    rw [skipGap_lineGap]
    rw [skipGap_render, ih _ _ fun j hj => hread j (List.mem_cons_of_mem _ hj)]
    · simp
    · rw [List.length_append]
      omega

/-- A member as it is printed. -/
def memberText (depth : Nat) (m : String × Json) : String :=
  literal prettyStyle.char m.1 ++ prettyStyle.colon ++ render prettyStyle depth m.2

/-- A member character by character: the reader takes the key first, then the colon. -/
theorem toList_memberText (depth : Nat) (m : String × Json) :
    (memberText depth m).toList = '"' :: (m.1.toList.flatMap plainChar ++
      '"' :: ':' :: ' ' :: (render prettyStyle depth m.2).toList) := by
  simp only [memberText, literal, String.toList_append, String.toList_ofList, List.append_assoc,
    List.cons_append]
  rfl

/-- One member, before the closing brace and before a comma. -/
theorem membersAt_member {depth : Nat} {m : String × Json} {before : List (String × Json)}
    (hread : Readable m.2) (hnew : m.1 ∉ before.map Prod.fst)
    (hfuel : (memberText depth m).toList.length ≤ fuel) (h : Delimited rest) :
    (∀ {after}, skipGap rest = '\x7d' :: after →
      membersAt (fuel + 1) before ((memberText depth m).toList ++ rest) =
        .ok (.object (before ++ [(m.1, m.2.arranged)]), after)) ∧
    ∀ {next}, skipGap rest = ',' :: next →
      membersAt (fuel + 1) before ((memberText depth m).toList ++ rest) =
        membersAt fuel (before ++ [(m.1, m.2.arranged)]) (skipGap next) := by
  rw [toList_memberText] at hfuel ⊢
  simp only [List.length_cons, List.length_append] at hfuel
  have hlen : (render prettyStyle depth m.2).toList.length ≤ fuel := by omega
  have hkey := stringBody_flatMap ('"' :: (m.1.toList.flatMap plainChar ++
    '"' :: ':' :: ' ' :: ((render prettyStyle depth m.2).toList ++ rest))) m.1.toList
    (':' :: ' ' :: ((render prettyStyle depth m.2).toList ++ rest))
  -- One blank stands after the colon, none before it.
  have hcolon := skipGap_cons (c := ':') (by decide)
    (' ' :: ((render prettyStyle depth m.2).toList ++ rest))
  have hblank : skipGap (' ' :: ((render prettyStyle depth m.2).toList ++ rest)) =
      (render prettyStyle depth m.2).toList ++ rest := by
    have hgap : ∀ c ∈ [' '], isGap c = true := List.forall_mem_singleton.2 rfl
    exact (skipGap_append hgap _).trans (skipGap_render depth m.2 rest)
  constructor <;> intro tail htail <;>
    simp only [List.cons_append, List.append_assoc, membersAt, hkey, hcolon, hblank,
      hread hlen h, String.ofList_toList, setMember_of_not_mem hnew, htail]

/-- Keys that are distinct are new when their turn comes. -/
theorem key_not_mem_before {before members : List (String × Json)} {m : String × Json}
    (h : ((before ++ m :: members).map Prod.fst).Nodup) : m.1 ∉ before.map Prod.fst := by
  rw [List.map_append, List.nodup_append] at h
  intro hm
  exact h.2.2 _ hm _ List.mem_cons_self rfl

/-- The members of an object after its opening brace. -/
theorem membersAt_text (depth fuel : Nat) (rest : List Char) {m : String × Json}
    {members : List (String × Json)} (before : List (String × Json))
    (hread : ∀ m' ∈ m :: members, Readable m'.2)
    (hnew : ((before ++ m :: members).map Prod.fst).Nodup)
    (hfuel : ((memberText (depth + 1) m).toList ++ members.flatMap fun m' =>
      ',' :: (lineGap (depth + 1) ++ (memberText (depth + 1) m').toList)).length < fuel) :
    membersAt fuel before ((memberText (depth + 1) m).toList ++
        (members.flatMap (fun m' =>
          ',' :: (lineGap (depth + 1) ++ (memberText (depth + 1) m').toList)) ++
          (lineGap depth ++ '\x7d' :: rest))) =
      .ok (.object (before ++ (m :: members).map fun m' => (m'.1, m'.2.arranged)), rest) := by
  -- As for items, but the members that have been read stand in order, so that the keys of all are
  -- those of `before` and of what is left.
  induction members generalizing fuel m before with
  | nil =>
    obtain ⟨fuel, rfl⟩ := Nat.exists_eq_add_of_lt (Nat.zero_lt_of_lt hfuel)
    rw [Nat.zero_add, List.flatMap_nil, List.append_nil] at hfuel
    have hkey := key_not_mem_before hnew
    rw [Nat.zero_add, List.flatMap_nil, List.nil_append]
    apply (membersAt_member (hread m List.mem_cons_self) hkey (by omega)
      (delimited_lineGap depth _)).1
    rw [skipGap_lineGap, skipGap_cons (by decide)]
  | cons second members ih =>
    obtain ⟨fuel, rfl⟩ := Nat.exists_eq_add_of_lt (Nat.zero_lt_of_lt hfuel)
    rw [Nat.zero_add, List.flatMap_cons] at hfuel
    simp only [List.length_append, List.length_cons] at hfuel
    have hkey := key_not_mem_before hnew
    -- A member begins with a quotation mark, so no gap is skipped in front of it.
    have hskip (tail : List Char) : skipGap ((memberText (depth + 1) second).toList ++ tail) =
        (memberText (depth + 1) second).toList ++ tail := by
      rw [toList_memberText, List.cons_append, skipGap_cons (by decide)]
    rw [Nat.zero_add, List.flatMap_cons, List.cons_append, List.cons_append,
      (membersAt_member (hread m List.mem_cons_self) hkey (by omega) (delimited_comma _)).2
        (skipGap_cons (by decide) _),
      List.append_assoc, List.append_assoc, skipGap_lineGap, hskip,
      ih _ _ fun m' hm => hread m' (List.mem_cons_of_mem _ hm)]
    · simp
    · simpa using hnew
    · rw [List.length_append]
      omega

/-! ## Reading values -/

/-- Every text has a character, and so some fuel. -/
theorem readable_of_valueAt {json : Json} (h : ∀ (depth fuel : Nat) (rest : List Char),
    (render prettyStyle depth json).toList.length ≤ fuel + 1 → Delimited rest →
      valueAt (fuel + 1) ((render prettyStyle depth json).toList ++ rest) =
        .ok (json.arranged, rest)) : Readable json := by
  intro depth fuel rest hfuel hrest
  obtain ⟨c, cs, hcs, -⟩ := exists_render prettyStyle depth json
  cases fuel with
  | zero =>
    rw [hcs] at hfuel
    cases hfuel
  | succ fuel => exact h depth fuel rest hfuel hrest

theorem readable_null : Readable .null := by
  apply readable_of_valueAt
  intro depth fuel rest _ _
  rw [render]
  show valueAt (fuel + 1) ('n' :: 'u' :: 'l' :: 'l' :: rest) = _
  simp [valueAt, afterWord?, arranged]

theorem readable_bool (b : Bool) : Readable (.bool b) := by
  apply readable_of_valueAt
  intro depth fuel rest _ _
  rw [render]
  cases b with
  | true =>
    show valueAt (fuel + 1) ('t' :: 'r' :: 'u' :: 'e' :: rest) = _
    simp [valueAt, afterWord?, arranged]
  | false =>
    show valueAt (fuel + 1) ('f' :: 'a' :: 'l' :: 's' :: 'e' :: rest) = _
    simp [valueAt, afterWord?, arranged]

/-- Here the limit on digits counts: a longer integer would not be read. -/
theorem readable_int {n : Int} (hfits : Number.fits n = true) : Readable (.int n) := by
  apply readable_of_valueAt
  intro depth fuel rest _ hrest
  rw [render]
  exact valueAt_number (numeric_numeral n) (number?_numeral n hrest) hfits

/-- Each of the three that are no numbers has a word, and so is told apart by its first letter. -/
theorem readable_float (x : Double) : Readable (.float x) := by
  apply readable_of_valueAt
  intro depth fuel rest _ hrest
  rw [render]
  cases x with
  | nan =>
    show valueAt (fuel + 1) ('N' :: 'a' :: 'N' :: rest) = _
    simp [valueAt, afterWord?, arranged]
  | infinite negative =>
    cases negative with
    | true =>
      show valueAt (fuel + 1)
        ('-' :: 'I' :: 'n' :: 'f' :: 'i' :: 'n' :: 'i' :: 't' :: 'y' :: rest) = _
      simp [valueAt, afterWord?, arranged]
    | false =>
      show valueAt (fuel + 1) ('I' :: 'n' :: 'f' :: 'i' :: 'n' :: 'i' :: 't' :: 'y' :: rest) = _
      simp [valueAt, afterWord?, arranged]
  | finite negative m e hc =>
    exact valueAt_number (numeric_text rfl) (number?_text rfl hrest) rfl

theorem readable_str (s : String) : Readable (.str s) := by
  apply readable_of_valueAt
  intro depth fuel rest _ _
  have hbody := stringBody_flatMap ('"' :: (s.toList.flatMap plainChar ++ '"' :: rest)) s.toList
    rest
  rw [render, literal, String.toList_ofList, List.cons_append, List.cons_append, List.append_assoc,
    List.singleton_append]
  show valueAt (fuel + 1) ('"' :: (s.toList.flatMap plainChar ++ '"' :: rest)) = _
  simp only [valueAt, hbody, String.ofList_toList, arranged]

/-- An array that does not end at once is read item by item. -/
theorem valueAt_items {x cs : List Char} {c : Char} (hx : skipGap x = c :: cs) (hc : c ≠ ']') :
    valueAt (fuel + 1) ('[' :: x) = itemsAt fuel [] (c :: cs) := by
  rw [valueAt, hx]
  split
  · rename_i heq
    cases heq
    exact absurd rfl hc
  · rfl

/-- And an object member by member. -/
theorem valueAt_members {x cs : List Char} {c : Char} (hx : skipGap x = c :: cs)
    (hc : c ≠ '\x7d') : valueAt (fuel + 1) ('\x7b' :: x) = membersAt fuel [] (c :: cs) := by
  rw [valueAt, hx]
  split
  · rename_i heq
    cases heq
    exact absurd rfl hc
  · rfl

/-- An array is read if its items are. -/
theorem readable_array {items : List Json} (hread : ∀ j ∈ items, Readable j) :
    Readable (.array items) := by
  apply readable_of_valueAt
  intro depth fuel rest hfuel _
  rw [render, renderItems_eq] at hfuel ⊢
  rw [arranged, arrangedItems_eq]
  cases items with
  | nil =>
    rw [List.map_nil, toList_enclose_nil]
    show valueAt (fuel + 1) ('[' :: ']' :: rest) = _
    simp [valueAt, skipGap, isGap]
  | cons item items =>
    rw [List.map_cons, toList_enclose, List.flatMap_map] at hfuel ⊢
    obtain ⟨c, cs, hcs, hopening⟩ := exists_render prettyStyle (depth + 1) item
    have hitems := itemsAt_text depth fuel rest [] hread
    simp only [List.length_append] at hfuel hitems
    have hlen : "[".toList.length = 1 ∧ "]".toList.length = 1 := ⟨rfl, rfl⟩
    rw [← List.nil_append ((item :: items).map arranged), ← List.reverse_nil,
      ← hitems (by omega)]
    simp only [List.append_assoc]
    show valueAt (fuel + 1) ('[' :: (lineGap (depth + 1) ++ _)) = _
    rw [hcs, List.cons_append]
    apply valueAt_items _ hopening.2.1
    rw [skipGap_lineGap, skipGap_cons hopening.1]
    rfl

/-- Members are printed in the order of their keys. -/
theorem renderObject_eq (depth : Nat) (members : List (String × Json)) :
    render prettyStyle depth (.object members) = prettyStyle.enclose "\x7b" "\x7d" depth
      ((byKey members).map (memberText (depth + 1))) := by
  rw [render, sortMembers_eq, List.map_map]
  rfl

/-- An object is read if the values in it are, and no key of it is given twice. -/
theorem readable_object {members : List (String × Json)}
    (hn : (members.map Prod.fst).Nodup) (hread : ∀ m ∈ members, Readable m.2) :
    Readable (.object members) := by
  apply readable_of_valueAt
  intro depth fuel rest hfuel _
  rw [renderObject_eq] at hfuel ⊢
  rw [arranged_object]
  have hnodup := nodup_keys_byKey hn
  have hreadable : ∀ m ∈ byKey members, Readable m.2 := fun m hm => hread m (mem_byKey.1 hm)
  revert hfuel hnodup hreadable
  -- The members in the order in which they are printed.
  generalize byKey members = sorted
  intro hfuel hnodup hreadable
  cases sorted with
  | nil =>
    rw [List.map_nil, toList_enclose_nil]
    show valueAt (fuel + 1) ('\x7b' :: '\x7d' :: rest) = _
    simp [valueAt, skipGap, isGap]
  | cons m sorted =>
    rw [List.map_cons, toList_enclose, List.flatMap_map] at hfuel ⊢
    have hmembers := membersAt_text depth fuel rest [] hreadable hnodup
    simp only [List.length_append] at hfuel hmembers
    have hlen : "\x7b".toList.length = 1 ∧ "\x7d".toList.length = 1 := ⟨rfl, rfl⟩
    rw [← List.nil_append ((m :: sorted).map _), ← hmembers (by omega)]
    simp only [List.append_assoc]
    show valueAt (fuel + 1) ('\x7b' :: (lineGap (depth + 1) ++ _)) = _
    rw [toList_memberText, List.cons_append]
    apply valueAt_members _ (by decide)
    rw [skipGap_lineGap, skipGap_cons (by decide)]
    rfl

mutual

/-- All that is printed is read: by recursion on the value, an array and an object by their parts.
-/
theorem readable : ∀ {json : Json}, json.Distinct → json.fits = true → Readable json
  | .null, _, _ => readable_null
  | .bool b, _, _ => readable_bool b
  | .int _, _, hfits => readable_int hfits
  | .float x, _, _ => readable_float x
  | .str s, _, _ => readable_str s
  | .array _, h, hfits => readable_array (readable_items h hfits)
  | .object _, h, hfits => readable_object h.1 (readable_members h.2 hfits)

theorem readable_items : ∀ {items : List Json}, DistinctItems items → itemsFit items = true →
    ∀ j ∈ items, Readable j
  | [], _, _ => nofun
  | _ :: _, h, hfits =>
    have hparts := Bool.and_eq_true_iff.1 hfits
    List.forall_mem_cons.2 ⟨readable h.1 hparts.1, readable_items h.2 hparts.2⟩

theorem readable_members : ∀ {members : List (String × Json)}, DistinctMembers members →
    membersFit members = true → ∀ m ∈ members, Readable m.2
  | [], _, _ => nofun
  | (_, _) :: _, h, hfits =>
    have hparts := Bool.and_eq_true_iff.1 hfits
    List.forall_mem_cons.2 ⟨readable h.1 hparts.1, readable_members h.2 hparts.2⟩

end

/-- Blanks at the end of a text do not belong to its last number. -/
theorem delimited_of_gap {gap : List Char} (hgap : ∀ c ∈ gap, isGap c = true) :
    Delimited gap := by
  intro c hc
  have hblank := hgap c (List.mem_of_mem_head? hc)
  simp only [isGap, Bool.or_eq_true, decide_eq_true_eq] at hblank
  rcases hblank with ((rfl | rfl) | rfl) | rfl <;> decide

/-- A printed text is read as the value printed, its members sorted, whatever blanks follow. -/
theorem readChars_pretty {json : Json} (h : json.Distinct) (hfits : json.fits = true)
    (gap : List Char) (hgap : ∀ c ∈ gap, isGap c = true) :
    readChars ((pretty json).toList ++ gap) = .ok json.arranged := by
  obtain ⟨c, cs, hcs, hopening⟩ := exists_render prettyStyle 0 json
  -- The fuel of the reader is more than one call for every character.
  have hread : valueAt (2 * ((pretty json).toList ++ gap).length + 2)
      ((pretty json).toList ++ gap) = .ok (json.arranged, gap) := by
    apply readable h hfits _ (delimited_of_gap hgap)
    rw [List.length_append, pretty]
    omega
  have hskip : skipGap ((pretty json).toList ++ gap) = (pretty json).toList ++ gap :=
    skipGap_render 0 json gap
  have hend : skipGap gap = [] := by
    rw [← List.append_nil gap, skipGap_append hgap]
    rfl
  unfold readChars
  split
  · rename_i heq
    rw [pretty, hcs, List.cons_append] at heq
    cases heq
    exact absurd rfl hopening.2.2
  · rw [hskip, hread]
    dsimp only
    rw [hend]

/-- A document ends with a line feed, which is read over. -/
theorem read_pretty {json : Json} (h : json.Distinct) (hfits : json.fits = true) :
    read (pretty json ++ "\n") = .ok json.arranged := by
  have hread := readChars_pretty h hfits ['\n'] (List.forall_mem_singleton.2 rfl)
  rw [read, String.toList_append, show "\n".toList = ['\n'] from rfl, hread]

end PageBuilder.Json
