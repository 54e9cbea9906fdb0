import PageBuilder.Markup.Attribute
import PageBuilder.Proofs.Number.Limit
import PageBuilder.Proofs.Text.Controls

/-!
# Literals in attributes

A reader of markup tells from what follows the name of an attribute how its value is written: by
nothing, between quotes or in braces.  Between quotes a text stands as it is, up to the next quote,
and in braces stands JSON.  So every literal is read as it was, whatever comes after the attribute,
and since the reader goes by the written text alone, no two literals are written alike.
-/

namespace PageBuilder

/-- Values that are written as what they are: texts, truth values and numbers. -/
inductive Value.IsLiteral : Value → Prop
  | str (s : String) : IsLiteral (.str s)
  | bool (b : Bool) : IsLiteral (.bool b)
  | int (n : Int) : IsLiteral (.int n)
  | float {x : Double} (h : x.isFinite = true) : IsLiteral (.float x)

theorem Value.IsLiteral.textFault?_eq_none_iff {value : Value} (h : value.IsLiteral) :
    value.textFault? = none ↔ ∀ n, value = .int n → Number.fits n = true := by
  cases h with
  | int n =>
    simp only [Value.textFault?, Value.int.injEq, forall_eq']
    cases Number.fits n <;> simp
  | str _ | bool _ | float _ => simp [Value.textFault?]

namespace Json

theorem afterWord?_append (word cs : List Char) : afterWord? word (word ++ cs) = some cs := by
  induction word with
  | nil => rfl
  | cons c word ih => rw [List.cons_append, afterWord?, if_pos rfl, ih]

theorem read_literal (s : String) : read (literal plainChar s) = .ok (.str s) := by
  have hread := @readChars_pretty (.str s) trivial rfl [] nofun
  have hpretty : pretty (.str s) = literal plainChar s := by
    rw [pretty, render]
    rfl
  rw [List.append_nil, hpretty] at hread
  rw [read, hread]
  rfl

end Json

namespace Markup

open Json Text

variable {value : Value} {text : String} {c : Char}

/-! ## How a prop is written -/

theorem needsBraces_eq_false_iff :
    needsBraces c = false ↔ 0x1f < c.toNat ∧ c ∉ ['"', '\\', '\x7b', '\x7d', '&'] := by
  simp [needsBraces, and_assoc]

/-- A text is written in one of two ways. -/
theorem textAttribute_cases (name text : String) :
    ((∀ c ∈ text.toList, needsBraces c = false) ∧
      textAttribute name text = name ++ "=\"" ++ text ++ "\"") ∨
    ((∃ c ∈ text.toList, needsBraces c = true) ∧
      textAttribute name text = braced name (literal plainChar text)) := by
  unfold textAttribute
  split
  case isTrue hany => exact Or.inr ⟨List.any_eq_true.1 hany, rfl⟩
  case isFalse hany => exact Or.inl ⟨by simpa using hany, rfl⟩

/-- A literal is written in one of three ways. -/
theorem attributeText_cases (h : value.IsLiteral) (name : String) :
    (value = .bool true ∧ attributeText name value = name) ∨
    (∃ text, value = .str text ∧ (∀ c ∈ text.toList, needsBraces c = false) ∧
      attributeText name value = name ++ "=\"" ++ text ++ "\"") ∨
    ∃ json : Json, .ofJson json = value ∧ json.Distinct ∧ json.arranged = json ∧
      (json.fits = true ↔ value.textFault? = none) ∧
      attributeText name value = braced name (pretty json) := by
  cases h with
  | str s =>
    obtain ⟨hquoted, heq⟩ | ⟨-, heq⟩ := textAttribute_cases name s
    · exact Or.inr (Or.inl ⟨s, rfl, hquoted, heq⟩)
    · exact Or.inr (Or.inr ⟨.str s, rfl, trivial, rfl, iff_of_true rfl rfl, heq⟩)
  | bool b =>
    cases b with
    | true => exact Or.inl ⟨rfl, rfl⟩
    | false => exact Or.inr (Or.inr ⟨.bool false, rfl, trivial, rfl, iff_of_true rfl rfl, rfl⟩)
  | int n =>
    refine Or.inr (Or.inr ⟨.int n, rfl, trivial, rfl, ?_, rfl⟩)
    rw [fits, Value.textFault?]
    cases Number.fits n <;> simp
  | @float x hx =>
    cases x with
    | nan | infinite => cases hx
    | finite negative m e hc =>
      exact Or.inr (Or.inr ⟨.float _, rfl, trivial, rfl, iff_of_true rfl rfl, rfl⟩)

/-! ## Control characters -/

theorem exists_braced {content : String} (h : ControlFree content.toList) (name : String) :
    ∃ rest : String, braced name content = name ++ rest ∧ ControlFree rest.toList := by
  refine ⟨"=\x7b" ++ content ++ "\x7d", by simp [braced, String.append_assoc], ?_⟩
  rw [String.toList_append, String.toList_append, controlFree_append, controlFree_append]
  exact ⟨⟨by decide, h⟩, by decide⟩

/-- No value but a binding brings a control character into an attribute. -/
theorem exists_controlFree (h : ∀ expression, value ≠ .binding expression) (name : String) :
    ∃ rest : String, attributeText name value = name ++ rest ∧ ControlFree rest.toList := by
  have htext : ∀ text, ∃ rest : String, textAttribute name text = name ++ rest ∧
      ControlFree rest.toList := by
    intro text
    obtain ⟨hquoted, heq⟩ | ⟨-, heq⟩ := textAttribute_cases name text
    · refine ⟨"=\"" ++ text ++ "\"", by rw [heq]; simp [String.append_assoc], ?_⟩
      rw [String.toList_append, String.toList_append, controlFree_append, controlFree_append]
      exact ⟨⟨by decide, fun c hc => (needsBraces_eq_false_iff.1 (hquoted c hc)).1⟩, by decide⟩
    · rw [heq]
      exact exists_braced (controlFree_literal text) name
  cases value with
  | binding e => exact absurd rfl (h e)
  | bool b =>
    cases b with
    | true => exact ⟨"", by simp [attributeText], controlFree_nil⟩
    | false => exact exists_braced (by decide) name
  | int n => exact exists_braced (controlFree_numeral n) name
  | float x => exact exists_braced (controlFree_text x) name
  | null | str | list | dict | tooDeep => exact htext _

/-! ## How an attribute is read -/

/-- The value that is read after the name of an attribute, and what follows it. -/
def valueAfter? : List Char → Option (Value × List Char)
  | '=' :: '"' :: cs =>
    match cs.dropWhile (· ≠ '"') with
    | [] => none
    | _ :: after => some (.str (String.ofList (cs.takeWhile (· ≠ '"'))), after)
  | '=' :: '\x7b' :: cs =>
    match valueAt (2 * cs.length + 2) cs with
    | .ok (json, '\x7d' :: after) => some (.ofJson json, after)
    | _ => none
  | '=' :: _ => none
  | cs => some (.bool true, cs)

/-- The value of the attribute of a name at the front of a text, and what follows it. -/
def readAttribute? (name : String) (cs : List Char) : Option (Value × List Char) :=
  (afterWord? name.toList cs).bind valueAfter?

theorem valueAfter?_nothing {after : List Char} (h : after.head? ≠ some '=') :
    valueAfter? after = some (.bool true, after) := by
  unfold valueAfter?
  split
  case h_4 => rfl
  all_goals exact absurd rfl h

/-- Between quotes a text is read up to the next quote, which is the last. -/
theorem valueAfter?_quoted {cs : List Char} (h : '"' ∉ cs) (after : List Char) :
    valueAfter? ('=' :: '"' :: cs ++ '"' :: after) = some (.str (String.ofList cs), after) := by
  have hquote : ∀ c ∈ cs, decide (c ≠ '"') = true := by
    rintro c hc
    exact decide_eq_true fun heq => h (heq ▸ hc)
  have hdrop : (cs ++ '"' :: after).dropWhile (· ≠ '"') = '"' :: after := by
    rw [List.dropWhile_append_of_pos hquote]
    rfl
  have htake : (cs ++ '"' :: after).takeWhile (· ≠ '"') = cs := by
    rw [List.takeWhile_append_of_pos hquote]
    simp
  rw [List.cons_append, List.cons_append, valueAfter?, hdrop, htake]

/-- In braces JSON is read up to the closing brace. -/
theorem valueAfter?_braced {json : Json} (h : json.Distinct) (hfits : json.fits = true)
    (after : List Char) :
    valueAfter? ('=' :: '\x7b' :: (pretty json).toList ++ '\x7d' :: after) =
      some (.ofJson json.arranged, after) := by
  have hbrace : Delimited ('\x7d' :: after) := by
    intro c hc
    obtain rfl : c = '\x7d' := by simpa using hc.symm
    decide
  have hread : valueAt (2 * ((pretty json).toList ++ '\x7d' :: after).length + 2)
      ((pretty json).toList ++ '\x7d' :: after) = .ok (json.arranged, '\x7d' :: after) := by
    apply readable h hfits _ hbrace
    rw [List.length_append, pretty]
    omega
  rw [List.cons_append, List.cons_append, valueAfter?, hread]
  rfl

/-- A literal is read as it was written, up to its end. -/
theorem readAttribute?_attributeText (h : value.IsLiteral) (hfault : value.textFault? = none)
    (name : String) {after : List Char} (hafter : after.head? ≠ some '=') :
    readAttribute? name ((attributeText name value).toList ++ after) = some (value, after) := by
  obtain ⟨rfl, heq⟩ | ⟨text, rfl, hquoted, heq⟩ |
      ⟨json, rfl, hdistinct, harranged, hfits, heq⟩ := attributeText_cases h name
  case inl =>
    rw [heq, readAttribute?, afterWord?_append]
    exact valueAfter?_nothing hafter
  case inr.inl =>
    have hquote : '"' ∉ text.toList := fun hc => absurd (hquoted _ hc) (by decide)
    have hwritten : (name ++ "=\"" ++ text ++ "\"").toList ++ after =
        name.toList ++ ('=' :: '"' :: text.toList ++ '"' :: after) := by
      simp [String.toList_append]
    rw [heq, hwritten, readAttribute?, afterWord?_append, Option.bind_some,
      valueAfter?_quoted hquote, String.ofList_toList]
  case inr.inr =>
    have hwritten : (braced name (pretty json)).toList ++ after =
        name.toList ++ ('=' :: '\x7b' :: (pretty json).toList ++ '\x7d' :: after) := by
      simp [braced, String.toList_append]
    rw [heq, hwritten, readAttribute?, afterWord?_append, Option.bind_some,
      valueAfter?_braced hdistinct (hfits.2 hfault), harranged]

/-- An attribute is written if its value has a text. -/
theorem propAttribute_eq_ok_iff {name written : String} : propAttribute name value = .ok written ↔
    value.textFault? = none ∧ written = attributeText name value := by
  rw [propAttribute, Value.checkText]
  cases value.textFault? <;> simp [eq_comm]

theorem propAttribute_eq_error_iff {name : String} {fault : TextFault} :
    propAttribute name value = .error fault ↔ value.textFault? = some fault := by
  rw [propAttribute, Value.checkText]
  cases value.textFault? <;> simp

/-- A text is written between quotes if it holds no character that cannot stand there, and else as
a string literal in braces; either way no control character of ASCII comes of it.  Every literal is
written but an integer of too many digits.  Whatever is written of a literal, it is read from the
text as it was, and so no two literals are written alike. -/
theorem literals_without_loss (name : String) :
    (∀ text : String, ∃ written, propAttribute name (.str text) = .ok written ∧
      ((∀ c ∈ text.toList, 0x1f < c.toNat ∧ c ∉ ['"', '\\', '\x7b', '\x7d', '&']) ∧
          written = name ++ "=\"" ++ text ++ "\"" ∨
        (∃ c ∈ text.toList, c.toNat ≤ 0x1f ∨ c ∈ ['"', '\\', '\x7b', '\x7d', '&']) ∧
          written = name ++ "=\x7b" ++ literal plainChar text ++ "\x7d" ∧
          read (literal plainChar text) = .ok (.str text)) ∧
      ∃ rest : String, written = name ++ rest ∧ ∀ c ∈ rest.toList, 0x1f < c.toNat) ∧
    (∀ {value : Value}, value.IsLiteral → ((∃ written, propAttribute name value = .ok written) ↔
      ∀ n, value = .int n → Number.fits n = true)) ∧
    (∀ {value : Value} {written : String} {after : List Char}, value.IsLiteral →
      propAttribute name value = .ok written → after.head? ≠ some '=' →
        readAttribute? name (written.toList ++ after) = some (value, after)) ∧
    ∀ {value other : Value} {written : String}, value.IsLiteral → other.IsLiteral →
      value ≠ other → propAttribute name value = .ok written →
        propAttribute name other ≠ .ok written := by
  have hread : ∀ {value : Value} {written : String} {after : List Char}, value.IsLiteral →
      propAttribute name value = .ok written → after.head? ≠ some '=' →
        readAttribute? name (written.toList ++ after) = some (value, after) := by
    intro value written after hvalue hwritten hafter
    obtain ⟨hfault, rfl⟩ := propAttribute_eq_ok_iff.1 hwritten
    exact readAttribute?_attributeText hvalue hfault name hafter
  refine ⟨fun text => ⟨attributeText name (.str text), propAttribute_eq_ok_iff.2 ⟨rfl, rfl⟩, ?_,
    exists_controlFree (by simp) name⟩, fun {value} hvalue => ?_, hread, ?_⟩
  · obtain ⟨hquoted, heq⟩ | ⟨⟨c, hc, hbraces⟩, heq⟩ := textAttribute_cases name text
    · exact Or.inl ⟨fun c hc => needsBraces_eq_false_iff.1 (hquoted c hc), heq⟩
    · have hnot : ¬ (0x1f < c.toNat ∧ c ∉ ['"', '\\', '\x7b', '\x7d', '&']) := by
        rw [← needsBraces_eq_false_iff, hbraces]
        decide
      refine Or.inr ⟨⟨c, hc, ?_⟩, heq, read_literal text⟩
      by_contra hneither
      rw [not_or, Nat.not_le] at hneither
      exact hnot hneither
  · simp only [propAttribute_eq_ok_iff, exists_and_left, exists_eq, and_true]
    exact hvalue.textFault?_eq_none_iff
  · intro value other written hvalue hother hne hwritten heq
    have hagain := @hread _ _ [] hvalue hwritten (by simp)
    rw [hread hother heq (by simp)] at hagain
    cases hagain
    exact hne rfl

/-- A number and its numeral are read apart, and so are one and true. -/
theorem literals_without_loss_one :
    propAttribute "n" (.str "1") = .ok "n=\"1\"" ∧ propAttribute "n" (.int 1) = .ok "n=\x7b1\x7d" ∧
    readAttribute? "n" ("n=\"1\"".toList ++ [' ']) = some (.str "1", [' ']) ∧
    readAttribute? "n" ("n=\x7b1\x7d".toList ++ [' ']) = some (.int 1, [' ']) ∧
    propAttribute "n" (.bool true) ≠ .ok "n=\x7b1\x7d" := by
  obtain ⟨-, -, hread, hne⟩ := literals_without_loss "n"
  have htext : propAttribute "n" (.str "1") = .ok "n=\"1\"" := by decide
  have hint : propAttribute "n" (.int 1) = .ok "n=\x7b1\x7d" := by decide
  exact ⟨htext, hint, hread (.str "1") htext (by decide), hread (.int 1) hint (by decide),
    hne (.int 1) (.bool true) (by decide) hint⟩

/-- The control character that ends a line is no control character of ASCII and stands between the
quotes; and an integer of too many digits is no more written than its negative, so the two are not
told apart. -/
theorem literals_without_loss_limits :
    propAttribute "n" (.str "\u0085") = .ok "n=\"\u0085\"" ∧
    Value.int Number.overlong ≠ .int (-Number.overlong) ∧
    propAttribute "n" (.int Number.overlong) = .error .longInteger ∧
    propAttribute "n" (.int (-Number.overlong)) = .error .longInteger := by
  have hpos : 0 < Number.overlong :=
    Int.natCast_pos.2 (Nat.pow_pos (by decide))
  have hnegative : Number.fits (-Number.overlong) = false :=
    Bool.eq_false_iff.2 fun hfits => absurd
      (Number.fits_of_le hfits (Nat.le_of_eq (Int.natAbs_neg _).symm))
      (Bool.eq_false_iff.1 Number.fits_overlong)
  refine ⟨by decide, fun heq => ?_, propAttribute_eq_error_iff.2 Value.textFault?_overlong,
    propAttribute_eq_error_iff.2 ?_⟩
  · have := Value.int.inj heq
    omega
  · rw [Value.textFault?, hnegative]
    rfl

end Markup

end PageBuilder
