import PageBuilder.Proofs.Markup.Rendering
import PageBuilder.Proofs.Page.Attributes

/-!
# The attributes of an opening tag as they are read

A reader of markup takes as much of an attribute for its name as can stand in a name.  For a prop
that is the name of the prop, but without the line feed that a name may end in.  So where no name
ends in one the names that are read are those of the props, each once, and none of them is one that
the generator writes by itself: the class name is what the style resolves to and nothing else.
-/

namespace PageBuilder.Markup

open Props

variable {component : Component} {e : Element} {name rest : String}

/-! ## Names -/

/-- The name that is read of an attribute. -/
def nameOf (written : String) : String :=
  String.ofList (written.toList.takeWhile isNameChar)

theorem nameOf_append (h : WellNamed name)
    (hrest : ∀ c, rest.toList.head? = some c → isNameChar c = false) :
    nameOf (name ++ rest) = name := by
  have hstop : rest.toList.takeWhile isNameChar = [] := by
    cases hcs : rest.toList with
    | nil => rfl
    | cons c cs => simp [hrest c (by rw [hcs]; rfl)]
  have hname : ∀ c ∈ name.toList, isNameChar c = true := fun _ => h.isNameChar
  rw [nameOf, String.toList_append, List.takeWhile_append_of_pos hname, hstop, List.append_nil,
    String.ofList_toList]

/-- A prop is written as its name, alone or before an equals sign. -/
theorem exists_attributeText (name : String) (value : Value) :
    ∃ rest : String, attributeText name value = name ++ rest ∧
      ∀ c, rest.toList.head? = some c → c = '=' := by
  have hbraced : ∀ content, ∃ rest : String, braced name content = name ++ rest ∧
      ∀ c, rest.toList.head? = some c → c = '=' := by
    intro content
    refine ⟨"=\x7b" ++ content ++ "\x7d", by simp [braced, String.append_assoc], ?_⟩
    simp
  have htext : ∀ text, ∃ rest : String, textAttribute name text = name ++ rest ∧
      ∀ c, rest.toList.head? = some c → c = '=' := by
    intro text
    unfold textAttribute
    split
    · exact hbraced _
    · refine ⟨"=\"" ++ text ++ "\"", by simp [String.append_assoc], ?_⟩
      simp
  cases value with
  | binding | int | float => exact hbraced _
  | null | str | list | dict | tooDeep => exact htext _
  | bool b =>
    cases b with
    | true => exact ⟨"", by simp [attributeText], by simp⟩
    | false => exact hbraced _

theorem nameOf_attributeText (h : WellNamed name) (value : Value) :
    nameOf (attributeText name value) = name := by
  obtain ⟨rest, heq, hrest⟩ := exists_attributeText name value
  rw [heq]
  refine nameOf_append h fun c hc => ?_
  rw [hrest c hc]
  decide

/-! ## Tags -/

/-- The attribute that the generator writes for the style of an element. -/
def classAttribute (e : Element) : String :=
  "className=\"" ++ Style.classText e.style ++ "\""

theorem wellNamed_className : WellNamed "className" :=
  ⟨'c', "lassName".toList, rfl, rfl, List.all_eq_true.1 rfl⟩

theorem nameOf_classAttribute (e : Element) : nameOf (classAttribute e) = "className" := by
  have heq : classAttribute e = "className" ++ ("=\"" ++ Style.classText e.style ++ "\"") := by
    rw [classAttribute, ← String.append_assoc, ← String.append_assoc]
    rfl
  rw [heq]
  refine nameOf_append wellNamed_className fun c hc => ?_
  obtain rfl : '=' = c := by simpa using hc
  decide

/-- The attributes of an opening tag as they are read. -/
structure Apart (component : Component) (e : Element) : Prop where
  /-- No name is read twice. -/
  nodup : ((attributeTexts component e).map nameOf).Nodup
  /-- What is read under a reserved name has been written for the style. -/
  reserved : ∀ written ∈ attributeTexts component e, nameOf written ∈ Props.reserved →
    written = classAttribute e
  /-- A style that resolves to nothing is not written. -/
  written_iff : classAttribute e ∈ attributeTexts component e ↔ Style.classText e.style ≠ ""

theorem attributeTexts_eq (component : Component) (e : Element) :
    attributeTexts component e =
      ((attributeOrder e.props component.props).map fun name =>
        attributeText name ((e.props.get? name).getD .null)) ++
      if Style.classText e.style = "" then [] else [classAttribute e] := by
  rw [attributeTexts, map_writtenProps]
  by_cases hc : Style.classText e.style = ""
  · simp [hc]
  · have hne : (Style.classText e.style).isEmpty = false := by simpa using hc
    simp [hc, hne, classAttribute]

/-- Names that are well formed and not reserved are told apart in a tag. -/
theorem apart_of_names (h : ∀ name ∈ e.props.keys, WellNamed name ∧ name ∉ Props.reserved) :
    Apart component e := by
  have hperm := attributeOrder_perm e.props component.props
  have hnamed : ∀ name ∈ attributeOrder e.props component.props,
      nameOf (attributeText name ((e.props.get? name).getD .null)) = name :=
    fun name hm => nameOf_attributeText (h name (hperm.mem_iff.1 hm)).1 _
  have hread : (((attributeOrder e.props component.props).map fun name =>
      attributeText name ((e.props.get? name).getD .null)).map nameOf) =
        attributeOrder e.props component.props := by
    rw [List.map_map]
    exact (List.map_congr_left hnamed).trans (List.map_id _)
  have hprop : ∀ name ∈ attributeOrder e.props component.props, name ∉ Props.reserved :=
    fun name hm => (h name (hperm.mem_iff.1 hm)).2
  have hclass : "className" ∈ Props.reserved := by decide
  constructor
  case nodup =>
    rw [attributeTexts_eq, List.map_append, hread]
    refine List.nodup_append.2 ⟨hperm.nodup_iff.2 e.props.nodup_keys, ?_, ?_⟩
    · split <;> simp
    -- The class name comes last, and no prop is named like it.
    · rintro name hm other hother rfl
      split at hother
      · cases hother
      · rw [List.map_singleton, List.mem_singleton, nameOf_classAttribute] at hother
        exact hprop _ hm (hother ▸ hclass)
  case reserved =>
    intro written hm hreserved
    rw [attributeTexts_eq] at hm
    rcases List.mem_append.1 hm with hm | hm
    · obtain ⟨name, hname, rfl⟩ := List.mem_map.1 hm
      rw [hnamed name hname] at hreserved
      exact absurd hreserved (hprop name hname)
    · split at hm
      · cases hm
      · exact List.mem_singleton.1 hm
  case written_iff =>
    rw [attributeTexts_eq, List.mem_append]
    constructor
    · rintro (hm | hm) hempty
      · -- A prop whose attribute looked like this would be named as the class name is.
        obtain ⟨name, hname, heq⟩ := List.mem_map.1 hm
        have hread := hnamed name hname
        rw [heq, nameOf_classAttribute] at hread
        exact hprop name hname (hread ▸ hclass)
      · simp [hempty] at hm
    · intro hne
      simp [hne]

/-! ## Lines -/

/-- A line that holds an opening tag of an element. -/
def Opens (unit : String) (component : Component) (e : Element) (line : String) : Prop :=
  ∃ depth, line = pad unit depth ++ "<" ++ tagText component e ++ " />" ∨
    line = pad unit depth ++ "<" ++ tagText component e ++ ">"

/-- A line that holds a closing tag. -/
def Closes (unit line : String) : Prop :=
  ∃ tag depth, line = pad unit depth ++ "</" ++ tag ++ ">"

/-- Every line holds one tag, and every opening tag is that of an element of the page. -/
theorem lines_cases {page : Page} {known : OrderedMap Component} {unit : String}
    {agenda : List Task} {written : List String}
    (h : lines page known unit agenda = .ok written) {line : String} (hm : line ∈ written) :
    Closes unit line ∨ ∃ id e component, page.get? id = some e ∧
      known.get? e.kind = some component ∧ Opens unit component e line := by
  fun_induction lines page known unit agenda generalizing written
  case case1 =>
    cases h
    cases hm
  case case2 tag depth rest ih =>
    obtain ⟨below, hbelow, rfl⟩ := Results.exists_of_map h
    rcases List.mem_cons.1 hm with rfl | hm
    · exact Or.inl ⟨tag, depth, rfl⟩
    · exact ih hbelow hm
  case case3 => cases h
  case case4 => cases h
  case case5 => cases h
  case case6 => cases h
  case case7 id depth n rest e he component hkind tag htag hempty ih =>
    obtain ⟨-, rfl⟩ := opening_eq_ok_iff.1 htag
    obtain ⟨below, hbelow, rfl⟩ := Results.exists_of_map h
    rcases List.mem_cons.1 hm with rfl | hm
    · exact Or.inr ⟨id, e, component, he, hkind, depth, Or.inl rfl⟩
    · exact ih hbelow hm
  case case8 id depth n rest e he component hkind tag htag hempty ih =>
    obtain ⟨-, rfl⟩ := opening_eq_ok_iff.1 htag
    obtain ⟨below, hbelow, rfl⟩ := Results.exists_of_map h
    rcases List.mem_cons.1 hm with rfl | hm
    · exact Or.inr ⟨id, e, component, he, hkind, depth, Or.inr rfl⟩
    · exact ih hbelow hm

end PageBuilder.Markup
