import PageBuilder.Proofs.Markup.Rendering
import PageBuilder.Proofs.Text.Sorted

/-!
# The order of props

The names of an element's props are written in three runs: structural names, names of the default
props of the component, and the rest.  A run is either picked from a list that does not depend on
the element or sorted, so it is settled by its members.  Hence there is one way to write the names
in runs (`InRuns.unique`), and the order in which the props were set leaves no trace.
-/

namespace PageBuilder.Markup

open Text

/-! ## Picking from a list -/

section Lists

variable {kept other all : List String}

theorem eq_filter_of_sublist (hall : all.Nodup) (hsub : kept.Sublist all) :
    kept = all.filter (· ∈ kept) := by
  have hself : kept.filter (· ∈ kept) = kept := List.filter_eq_self.2 fun name => by simp
  have hfilter : kept.Sublist (all.filter (· ∈ kept)) := by
    have := hsub.filter (· ∈ kept)
    rwa [hself] at this
  have hperm : kept.Perm (all.filter (· ∈ kept)) :=
    (List.perm_ext_iff_of_nodup (hsub.nodup hall) (hall.filter _)).2 fun name => by
      simpa using fun hm => hsub.subset hm
  exact hfilter.eq_of_length hperm.length_eq

/-- What is picked from a list without repetitions, in the order of the list. -/
theorem eq_of_sublist (hall : all.Nodup) (hkept : kept.Sublist all) (hother : other.Sublist all)
    (hmem : ∀ name, name ∈ kept ↔ name ∈ other) : kept = other := by
  rw [eq_filter_of_sublist hall hkept, eq_filter_of_sublist hall hother]
  simp only [hmem]

end Lists

/-! ## Runs -/

/-- The three runs in which the names of props are written. -/
structure InRuns (props template : OrderedMap Value)
    (structural templated others : List String) : Prop where
  structural_sublist : structural.Sublist structuralNames
  mem_structural_iff : ∀ name, name ∈ structural ↔ name ∈ structuralNames ∧ name ∈ props.keys
  templated_sublist : templated.Sublist template.keys
  mem_templated_iff : ∀ name, name ∈ templated ↔
    name ∈ template.keys ∧ name ∈ props.keys ∧ name ∉ structuralNames
  others_increasing : others.Pairwise fun a b => codePoints a < codePoints b
  mem_others_iff : ∀ name, name ∈ others ↔
    name ∈ props.keys ∧ name ∉ structuralNames ∧ name ∉ template.keys

variable {props template : OrderedMap Value}
  {structural templated others structural' templated' others' : List String}

theorem exists_inRuns (props template : OrderedMap Value) :
    ∃ structural templated others,
      attributeOrder props template = structural ++ templated ++ others ∧
        InRuns props template structural templated others := by
  refine ⟨_, _, _, rfl, ?_⟩
  constructor
  case structural_sublist => exact List.filter_sublist
  case templated_sublist => exact List.filter_sublist
  case others_increasing =>
    exact (pairwise_lt_mergeSort (props.nodup_keys.filter _)).imp codePoints_lt
  case mem_structural_iff =>
    intro name
    rw [List.mem_filter, OrderedMap.contains_iff]
  case mem_templated_iff =>
    intro name
    simp [OrderedMap.contains_iff]
  case mem_others_iff =>
    intro name
    rw [List.mem_mergeSort, List.mem_filter, ← OrderedMap.contains_iff template]
    simp

theorem InRuns.unique (h : InRuns props template structural templated others)
    (h' : InRuns props template structural' templated' others') :
    structural = structural' ∧ templated = templated' ∧ others = others' := by
  refine ⟨eq_of_sublist (by decide) h.structural_sublist h'.structural_sublist ?_,
    eq_of_sublist template.nodup_keys h.templated_sublist h'.templated_sublist ?_,
    eq_of_increasing h.others_increasing h'.others_increasing ?_⟩
  · intro name
    rw [h.mem_structural_iff, h'.mem_structural_iff]
  · intro name
    rw [h.mem_templated_iff, h'.mem_templated_iff]
  · intro name
    rw [h.mem_others_iff, h'.mem_others_iff]

/-- Runs are those of any other props of the same names. -/
theorem InRuns.congr {set : OrderedMap Value} (hkeys : set.keys.Perm props.keys)
    (h : InRuns set template structural templated others) :
    InRuns props template structural templated others := by
  have hmem : ∀ name, name ∈ set.keys ↔ name ∈ props.keys := fun _ => hkeys.mem_iff
  constructor
  case structural_sublist => exact h.structural_sublist
  case templated_sublist => exact h.templated_sublist
  case others_increasing => exact h.others_increasing
  case mem_structural_iff => simpa only [hmem] using h.mem_structural_iff
  case mem_templated_iff => simpa only [hmem] using h.mem_templated_iff
  case mem_others_iff => simpa only [hmem] using h.mem_others_iff

theorem eq_attributeOrder_iff {names : List String} : names = attributeOrder props template ↔
    ∃ structural templated others, names = structural ++ templated ++ others ∧
      InRuns props template structural templated others := by
  constructor
  · rintro rfl
    exact exists_inRuns props template
  · rintro ⟨s, t, o, rfl, hruns⟩
    obtain ⟨s', t', o', heq, hruns'⟩ := exists_inRuns props template
    obtain ⟨rfl, rfl, rfl⟩ := hruns.unique hruns'
    exact heq.symm

/-- The order in which props were set does not show. -/
theorem attributeOrder_congr {set : OrderedMap Value} (hkeys : set.keys.Perm props.keys) :
    attributeOrder set template = attributeOrder props template := by
  obtain ⟨s, t, o, heq, hruns⟩ := exists_inRuns set template
  exact eq_attributeOrder_iff.2 ⟨s, t, o, heq, hruns.congr hkeys⟩

/-- The names of all props are written, each once: structural names in their order, names of the
template in its order, and the others by code points, whatever names the template has.  No other
list is in such runs, and props of the same names are written in the same order. -/
theorem attributeOrder_canonical (props template : OrderedMap Value) :
    (attributeOrder props template).Nodup ∧
    (∀ name, name ∈ attributeOrder props template ↔ name ∈ props.keys) ∧
    (∀ names, names = attributeOrder props template ↔
      ∃ structural templated others, names = structural ++ templated ++ others ∧
        InRuns props template structural templated others) ∧
    ∀ set : OrderedMap Value, set.keys.Perm props.keys →
      attributeOrder set template = attributeOrder props template := by
  have hperm := attributeOrder_perm props template
  exact ⟨hperm.nodup_iff.2 props.nodup_keys, fun _ => hperm.mem_iff,
    fun _ => eq_attributeOrder_iff, fun _ => attributeOrder_congr⟩

/-- A template with a structural name and a name that is not set. -/
theorem attributeOrder_canonical_reordered :
    let template : OrderedMap Value := .ofList [("text", .null), ("key", .null), ("alt", .null)]
    let props : OrderedMap Value :=
      .ofList [("key", .str "a"), ("text", .str "b"), ("href", .str "c")]
    let set : OrderedMap Value :=
      .ofList [("href", .str "c"), ("text", .str "b"), ("key", .str "a")]
    attributeOrder props template = ["key", "text", "href"] ∧
      attributeOrder set template = ["key", "text", "href"] := by
  intro template props set
  have hprops : attributeOrder props template = ["key", "text", "href"] := by
    change ["key", "text"] ++ ["href"].mergeSort _ = _
    rw [List.mergeSort_singleton]
    rfl
  obtain ⟨-, -, -, hset⟩ := attributeOrder_canonical props template
  exact ⟨hprops, (hset set (by decide)).trans hprops⟩

end PageBuilder.Markup
