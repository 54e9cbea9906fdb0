import PageBuilder.Failure
import PageBuilder.Markup.Attribute
import PageBuilder.Page.Basic
import PageBuilder.Proofs.Results
import PageBuilder.Proofs.Style.Resolve

/-!
# Tags and the texts that stand in them

A tag is written if every value that stands in it has a text.  What it looks like (`tagText`) and
what keeps it from being written (`tagFault?`) are two questions, and `opening_eq` is the only place
where they meet: all that is said of tags elsewhere is said of their texts, which are there for
every element, and a fault is looked for apart from them.  Whether there is one does not depend on
the component, nor on the order in which the attributes are written (`tagFault?_eq_none_iff`).
-/

namespace PageBuilder

open Results

/-- Every value that stands in the tag of an element has a text. -/
structure Element.HasTexts (e : Element) : Prop where
  props : ∀ p ∈ e.props.entries, p.2.textFault? = none
  style : Style.textFault? e.style = none

instance (e : Element) : Decidable e.HasTexts :=
  decidable_of_iff
    ((∀ p ∈ e.props.entries, p.2.textFault? = none) ∧ Style.textFault? e.style = none)
    ⟨fun h => ⟨h.1, h.2⟩, fun h => ⟨h.props, h.style⟩⟩

/-- Every element can be written. -/
def Page.HasTexts (page : Page) : Prop :=
  ∀ id e, page.get? id = some e → e.HasTexts

instance (page : Page) : Decidable page.HasTexts :=
  decidable_of_iff (∀ p ∈ page.elements.entries, p.2.HasTexts)
    ⟨fun h id e he => h (id, e) ((page.elements.mem_entries_iff id e).2 he),
      fun h p hp => h p.1 p.2 ((page.elements.mem_entries_iff p.1 p.2).1 hp)⟩

namespace Markup

variable {component : Component} {e : Element}

/-- The attributes of an element in the order of writing. -/
def attributeTexts (component : Component) (e : Element) : List String :=
  let props := (writtenProps component e).map fun p => attributeText p.1 p.2
  let classes := Style.classText e.style
  if classes.isEmpty then props else props ++ ["className=\"" ++ classes ++ "\""]

/-- A tag with its attributes, without the brackets. -/
def tagText (component : Component) (e : Element) : String :=
  Text.join " " (component.tag :: attributeTexts component e)

/-- Why a tag cannot be written: the fault of the first value, the class name last. -/
def tagFault? (component : Component) (e : Element) : Option TextFault :=
  ((writtenProps component e).findSome? fun p => p.2.textFault?).or (Style.textFault? e.style)

/-- A result that is there unless a text is wanting. -/
def unlessFault {α : Type} (fault : Option TextFault) (result : Except Failure α) :
    Except Failure α :=
  match fault with
  | some fault => .error (.noText fault)
  | none => result

section Unless

variable {α β : Type}

@[simp] theorem unlessFault_none (result : Except Failure α) : unlessFault none result = result :=
  rfl

@[simp] theorem unlessFault_some (fault : TextFault) (result : Except Failure α) :
    unlessFault (some fault) result = .error (.noText fault) := rfl

theorem map_unlessFault (f : α → β) (fault : Option TextFault) (result : Except Failure α) :
    f <$> unlessFault fault result = unlessFault fault (f <$> result) := by
  cases fault <;> rfl

theorem unlessFault_unlessFault (first second : Option TextFault) (result : Except Failure α) :
    unlessFault first (unlessFault second result) = unlessFault (first.or second) result := by
  cases first <;> rfl

end Unless

/-- Every prop is named once. -/
theorem attributeOrder_perm (props template : OrderedMap Value) :
    (attributeOrder props template).Perm props.keys := by
  have hsorted := List.mergeSort_perm (props.keys.filter fun name =>
    !structuralNames.contains name && !template.contains name) fun a b => decide (a ≤ b)
  refine List.Perm.trans (List.Perm.append_left _ hsorted) ?_
  have hstructural : structuralNames.Nodup := by decide
  refine (List.perm_ext_iff_of_nodup ?_ props.nodup_keys).2 fun name => ?_
  · -- The three parts are apart: each leaves out what the parts before it hold.
    refine List.nodup_append.2 ⟨List.nodup_append.2
      ⟨hstructural.filter _, template.nodup_keys.filter _, ?_⟩, props.nodup_keys.filter _, ?_⟩
    · rintro x hx y hy rfl
      simp_all
    · rintro x hx y hy rfl
      simp only [List.mem_append, List.mem_filter, OrderedMap.contains_iff, Bool.and_eq_true,
        Bool.not_eq_true', ← Bool.not_eq_true, List.contains_iff_mem] at hx hy
      tauto
  · simp only [List.mem_append, List.mem_filter, OrderedMap.contains_iff, Bool.and_eq_true,
      Bool.not_eq_true', ← Bool.not_eq_true, List.contains_iff_mem]
    tauto

theorem mem_writtenProps {p : String × Value} :
    p ∈ writtenProps component e ↔ p ∈ e.props.entries := by
  have hnames := attributeOrder_perm e.props component.props
  simp only [writtenProps, List.mem_filterMap, Option.map_eq_some_iff, hnames.mem_iff]
  constructor
  · rintro ⟨name, -, value, hvalue, rfl⟩
    exact (e.props.mem_entries_iff _ _).2 hvalue
  · intro hp
    exact ⟨p.1, List.mem_map_of_mem hp, p.2, (e.props.mem_entries_iff _ _).1 hp, rfl⟩

theorem map_writtenProps (f : String → Value → String) :
    (writtenProps component e).map (fun p => f p.1 p.2) =
      (attributeOrder e.props component.props).map fun name =>
        f name ((e.props.get? name).getD .null) := by
  rw [writtenProps, List.map_filterMap, ← List.filterMap_eq_map]
  apply List.filterMap_congr
  intro name hm
  obtain ⟨value, hvalue⟩ :=
    (e.props.mem_keys_iff name).1 ((attributeOrder_perm e.props component.props).mem_iff.1 hm)
  simp [hvalue]

/-- Nothing keeps a tag from being written exactly if every value has a text. -/
theorem tagFault?_eq_none_iff : tagFault? component e = none ↔ e.HasTexts := by
  rw [tagFault?, Option.or_eq_none_iff, List.findSome?_eq_none_iff]
  simp only [mem_writtenProps]
  exact ⟨fun h => ⟨h.1, h.2⟩, fun h => ⟨h.props, h.style⟩⟩

/-! ## A tag is written as its text, or not at all -/

theorem propAttributes_eq (props : List (String × Value)) :
    propAttributes props =
      match props.findSome? fun p => p.2.textFault? with
      | some fault => .error fault
      | none => .ok (props.map fun p => attributeText p.1 p.2) := by
  induction props with
  | nil => rfl
  | cons p rest ih =>
    obtain ⟨name, value⟩ := p
    rw [propAttributes, ih, propAttribute, Value.checkText, List.findSome?_cons]
    cases value.textFault? with
    | some fault => rfl
    | none => cases rest.findSome? fun p => p.2.textFault? <;> rfl

theorem attributes_eq (component : Component) (e : Element) :
    attributes component e =
      match tagFault? component e with
      | some fault => .error fault
      | none => .ok (attributeTexts component e) := by
  rw [attributes, propAttributes_eq, Style.className_eq, tagFault?]
  cases (writtenProps component e).findSome? fun p => p.2.textFault? with
  | some fault => rfl
  | none => cases Style.textFault? e.style <;> rfl

theorem opening_eq (component : Component) (e : Element) :
    opening component e =
      match tagFault? component e with
      | some fault => .error fault
      | none => .ok (tagText component e) := by
  rw [opening, attributes_eq]
  cases tagFault? component e <;> rfl

theorem opening_eq_ok_iff {tag : String} :
    opening component e = .ok tag ↔ tagFault? component e = none ∧ tag = tagText component e := by
  rw [opening_eq]
  cases tagFault? component e <;> simp [eq_comm]

theorem opening_eq_error_iff {fault : TextFault} :
    opening component e = .error fault ↔ tagFault? component e = some fault := by
  rw [opening_eq]
  cases tagFault? component e <;> simp

end Markup

end PageBuilder
