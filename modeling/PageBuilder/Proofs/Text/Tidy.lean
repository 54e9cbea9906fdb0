import PageBuilder.Text.Lines

/-!
# Texts that are tidy already

Splitting a text undoes joining lines that hold no line feed, and trimming leaves a line alone that
does not end in a blank.  So of a text put together from such lines the layout pass changes nothing,
as long as the last of them is not empty.
-/

namespace PageBuilder.Text

variable {line cs : List Char} {lines : List (List Char)}

/-! ## Joining and splitting -/

theorem joinLines_cons (line : List Char) (h : lines ≠ []) :
    joinLines (line :: lines) = line ++ '\n' :: joinLines lines := by
  cases lines with
  | nil => exact absurd rfl h
  | cons next more => rfl

theorem join_cons_of_ne_nil (separator s : String) {rest : List String} (h : rest ≠ []) :
    join separator (s :: rest) = s ++ separator ++ join separator rest := by
  cases rest with
  | nil => exact absurd rfl h
  | cons next more => rfl

theorem join_append (separator : String) {front back : List String} (hfront : front ≠ [])
    (hback : back ≠ []) :
    join separator (front ++ back) = join separator front ++ separator ++ join separator back := by
  induction front with
  | nil => exact absurd rfl hfront
  | cons s rest ih =>
    by_cases hend : rest = []
    · rw [hend]
      exact join_cons_of_ne_nil separator s hback
    · rw [List.cons_append, join_cons_of_ne_nil separator s (by simp [hend]), ih hend,
        join_cons_of_ne_nil separator s hend]
      simp only [String.append_assoc]

/-- A joined text has no characters but those of its parts and the separators. -/
theorem mem_join {separator : String} {parts : List String} {c : Char}
    (h : c ∈ (join separator parts).toList) :
    c ∈ separator.toList ∨ ∃ part ∈ parts, c ∈ part.toList := by
  induction parts with
  | nil => simp [join] at h
  | cons part rest ih =>
    by_cases hend : rest = []
    · subst hend
      exact Or.inr ⟨part, List.mem_cons_self, h⟩
    · rw [join_cons_of_ne_nil separator part hend, String.toList_append, String.toList_append,
        List.mem_append, List.mem_append] at h
      rcases h with (h | h) | h
      · exact Or.inr ⟨part, List.mem_cons_self, h⟩
      · exact Or.inl h
      · obtain h | ⟨other, hm, h⟩ := ih h
        · exact Or.inl h
        · exact Or.inr ⟨other, List.mem_cons_of_mem _ hm, h⟩

theorem toList_join (separator : String) (parts : List String) :
    (join separator parts).toList = separator.toList.intercalate (parts.map String.toList) := by
  induction parts with
  | nil => rfl
  | cons part rest ih =>
    by_cases hend : rest = []
    · simp [hend, join]
    · obtain ⟨next, more, rfl⟩ := List.exists_cons_of_ne_nil hend
      rw [join_cons_of_ne_nil separator part hend, String.toList_append, String.toList_append, ih]
      simp [List.intercalate_cons_cons]

/-- Splitting undoes joining with a character that no part holds. -/
theorem splitOn_join {separator : String} {c : Char} {parts : List String}
    (hseparator : separator.toList = [c]) (hne : parts ≠ [])
    (h : ∀ part ∈ parts, c ∉ part.toList) :
    (join separator parts).toList.splitOn c = parts.map String.toList := by
  rw [toList_join, hseparator]
  exact List.splitOn_intercalate c (List.forall_mem_map.2 h) (by simpa using hne)

theorem toList_join_lines (lines : List String) :
    (join "\n" lines).toList = joinLines (lines.map String.toList) := by
  induction lines with
  | nil => rfl
  | cons line rest ih =>
    by_cases hend : rest = []
    · rw [hend]
      rfl
    · rw [join_cons_of_ne_nil _ _ hend, String.toList_append, String.toList_append, ih,
        List.map_cons, joinLines_cons _ (by simpa using hend), List.append_assoc]
      rfl

theorem splitLines_of_not_mem (h : '\n' ∉ line) : splitLines line = [line] := by
  induction line with
  | nil => rfl
  | cons c rest ih =>
    obtain ⟨hc, hrest⟩ := List.ne_and_not_mem_of_not_mem_cons h
    rw [splitLines, if_neg hc.symm, ih hrest]

/-- The first line ends at the first line feed. -/
theorem splitLines_append (h : '\n' ∉ line) (cs : List Char) :
    splitLines (line ++ '\n' :: cs) = line :: splitLines cs := by
  induction line with
  | nil => rw [List.nil_append, splitLines, if_pos rfl]
  | cons c rest ih =>
    obtain ⟨hc, hrest⟩ := List.ne_and_not_mem_of_not_mem_cons h
    rw [List.cons_append, splitLines, if_neg hc.symm, ih hrest]

/-- Lines that are joined are told apart again, as none holds a line feed. -/
theorem splitLines_joinLines (hne : lines ≠ []) (h : ∀ line ∈ lines, '\n' ∉ line) :
    splitLines (joinLines lines) = lines := by
  induction lines with
  | nil => exact absurd rfl hne
  | cons line rest ih =>
    obtain ⟨hline, hrest⟩ := List.forall_mem_cons.1 h
    by_cases hend : rest = []
    · rw [hend]
      exact splitLines_of_not_mem hline
    · rw [joinLines_cons line hend, splitLines_append hline, ih hend hrest]

/-! ## Trimming -/

/-- Nothing is dropped if already the last character is to stay. -/
theorem dropEndWhile_of_getLast? {p : Char → Bool} (h : ∀ c ∈ cs.getLast?, p c = false) :
    dropEndWhile p cs = cs := by
  induction cs with
  | nil => rfl
  | cons c rest ih =>
    cases rest with
    | nil => simp [dropEndWhile, h c rfl]
    | cons d more =>
      rw [dropEndWhile, ih fun x hx => h x (by rwa [List.getLast?_cons_cons])]

theorem dropEmptyEnd_of_getLast? (h : lines.getLast? ≠ some []) : dropEmptyEnd lines = lines := by
  induction lines with
  | nil => rfl
  | cons line rest ih =>
    cases rest with
    | nil =>
      have hne : line.isEmpty = false := by simpa using h
      simp [dropEmptyEnd, hne]
    | cons next more =>
      rw [dropEmptyEnd, ih (by rwa [List.getLast?_cons_cons] at h)]

/-- An empty line at the end is dropped. -/
theorem dropEmptyEnd_append_nil (lines : List (List Char)) :
    dropEmptyEnd (lines ++ [[]]) = dropEmptyEnd lines := by
  induction lines with
  | nil => rfl
  | cons line rest ih => rw [List.cons_append, dropEmptyEnd, ih, dropEmptyEnd]

/-! ## Texts of neat lines -/

/-- One line that does not end in a blank. -/
def Neat (line : List Char) : Prop :=
  '\n' ∉ line ∧ ∀ c ∈ line.getLast?, isBlank c = false

instance (line : List Char) : Decidable (Neat line) :=
  @instDecidableAnd _ _ inferInstance (Option.decidableForallMem line.getLast?)

/-- How a line begins does not matter if it has an end. -/
theorem neat_append (hcs : '\n' ∉ cs) (hline : Neat line) (hne : line ≠ []) :
    Neat (cs ++ line) := by
  refine ⟨fun hm => (List.mem_append.1 hm).elim hcs hline.1, ?_⟩
  have hend : (cs ++ line).getLast? = line.getLast? := by
    rw [List.getLast?_append, Option.or_of_isSome (by simpa using hne)]
  rw [hend]
  exact hline.2

theorem neat_toList_append {front line : String} (hfront : '\n' ∉ front.toList)
    (hline : Neat line.toList) (hne : line.toList ≠ []) : Neat (front ++ line).toList := by
  rw [String.toList_append]
  exact neat_append hfront hline hne

/-- Neat lines are left as they are, and end with one line feed. -/
theorem tidyLines_of_neat (h : ∀ line ∈ lines, Neat line)
    (hlast : lines.getLast? ≠ some []) :
    tidyLines (joinLines (lines ++ [[]])) = joinLines lines ++ ['\n'] := by
  have hneat : ∀ line ∈ lines ++ [[]], Neat line :=
    List.forall_mem_append.2 ⟨h, List.forall_mem_singleton.2 (by decide)⟩
  have htrim : (lines ++ [[]]).map (dropEndWhile isBlank) = lines ++ [[]] :=
    (List.map_congr_left fun line hm => dropEndWhile_of_getLast? (hneat line hm).2).trans
      (List.map_id _)
  rw [tidyLines, splitLines_joinLines (by simp) fun line hm => (hneat line hm).1, htrim,
    dropEmptyEnd_append_nil, dropEmptyEnd_of_getLast? hlast]

/-- So a text of neat lines is tidy. -/
theorem tidy_of_neat {lines : List String} (hne : lines ≠ [])
    (h : ∀ line ∈ lines, Neat line.toList) (hlast : lines.getLast? ≠ some "") :
    tidy (join "\n" lines ++ "\n") = join "\n" lines ++ "\n" := by
  have hneat : ∀ line ∈ lines.map String.toList, Neat line := by
    simpa using h
  have hend : (lines.map String.toList).getLast? ≠ some [] := by
    simpa using hlast
  have htext : (join "\n" lines ++ "\n").toList =
      joinLines (lines.map String.toList ++ [[]]) := by
    have hjoin := join_append "\n" hne (List.cons_ne_nil "" [])
    rw [join, String.append_empty] at hjoin
    rw [← hjoin, toList_join_lines, List.map_append]
    rfl
  rw [tidy, htext, tidyLines_of_neat hneat hend, ← toList_join_lines]
  apply String.toList_inj.1
  rw [String.toList_ofList, String.toList_append]
  rfl

end PageBuilder.Text
