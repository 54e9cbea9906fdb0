import Mathlib.Data.List.Basic
import PageBuilder.Proofs.Text.Tidy

/-!
# What tidying does inside a text

All that tidying does before the end of a text is to take away the blanks that stand before line
feeds (`settle`).  That can be done piece by piece wherever a text is cut beside a character that is
not blank (`settleChars_append`).  So what becomes of a part of a text that begins and ends in such
characters does not depend on what stands around it (`tidy_part`), and nothing becomes of it exactly
if no blank in it stands before a line feed (`settle_eq_self_iff`).
-/

namespace PageBuilder.Text

variable {line cs ds : List Char}

/-! ## Texts line by line -/

/-- Every text is one line, or a line and a line feed before another text. -/
theorem line_induction {motive : List Char → Prop} (last : ∀ line, '\n' ∉ line → motive line)
    (more : ∀ line cs, '\n' ∉ line → motive cs → motive (line ++ '\n' :: cs)) (cs : List Char) :
    motive cs := by
  -- Characters are taken over into the line until a line feed comes.
  have hline : ∀ line, '\n' ∉ line → motive (line ++ cs) := by
    induction cs with
    | nil =>
      intro line h
      rw [List.append_nil]
      exact last line h
    | cons c rest ih =>
      intro line h
      by_cases hc : c = '\n'
      · rw [hc]
        exact more line rest h (ih [] List.not_mem_nil)
      · rw [List.append_cons]
        exact ih (line ++ [c]) (by simp [h, Ne.symm hc])
  exact hline [] List.not_mem_nil

/-- Lines put together without the blanks at the ends of all but the last. -/
def settleLines : List (List Char) → List Char
  | [] => []
  | [line] => line
  | line :: rest => dropEndWhile isBlank line ++ '\n' :: settleLines rest

def settleChars (cs : List Char) : List Char :=
  settleLines (splitLines cs)

/-- A text without the blanks that stand before line feeds. -/
def settle (s : String) : String :=
  String.ofList (settleChars s.toList)

theorem settleChars_line (h : '\n' ∉ line) : settleChars line = line := by
  rw [settleChars, splitLines_of_not_mem h, settleLines]

theorem settleChars_cons (h : '\n' ∉ line) (cs : List Char) :
    settleChars (line ++ '\n' :: cs) = dropEndWhile isBlank line ++ '\n' :: settleChars cs := by
  rw [settleChars, splitLines_append h, settleLines, settleChars]
  exact splitLines_ne_nil cs

/-! ## Trimming an end -/

theorem dropEndWhile_append (p : Char → Bool) (cs ds : List Char) :
    dropEndWhile p (cs ++ ds) =
      if dropEndWhile p ds = [] then dropEndWhile p cs else cs ++ dropEndWhile p ds := by
  induction cs with
  | nil =>
    split
    case isTrue h => rw [List.nil_append, h, dropEndWhile]
    case isFalse => rfl
  | cons c rest ih =>
    rw [List.cons_append, dropEndWhile, ih]
    by_cases h : dropEndWhile p ds = []
    · rw [if_pos h, if_pos h, dropEndWhile]
    · rw [if_neg h, if_neg h]
      split
      case h_1 hnil => exact absurd (List.append_eq_nil_iff.1 hnil).2 h
      case h_2 => rfl

theorem not_mem_dropEndWhile (p : Char → Bool) (h : '\n' ∉ line) : '\n' ∉ dropEndWhile p line := by
  induction line with
  | nil => exact h
  | cons c rest ih =>
    obtain ⟨hc, hrest⟩ := List.ne_and_not_mem_of_not_mem_cons h
    rw [dropEndWhile]
    split
    · split <;> simp [hc]
    · simp [hc, ih hrest]

theorem dropEndWhile_eq_self_iff {p : Char → Bool} :
    dropEndWhile p cs = cs ↔ ∀ c ∈ cs.getLast?, p c = false := by
  constructor
  · intro h c hc
    rw [← h] at hc
    exact getLast?_dropEndWhile p cs c hc
  · exact dropEndWhile_of_getLast?

/-! ## Cuts -/

/-- A text begins in a character that is not blank. -/
def Begins (cs : List Char) : Prop :=
  ∃ c ∈ cs.head?, isBlank c = false

/-- A text ends in a character that is not blank. -/
def Ends (cs : List Char) : Prop :=
  ∃ c ∈ cs.getLast?, isBlank c = false

theorem Begins.append (h : Begins cs) (ds : List Char) : Begins (cs ++ ds) := by
  obtain ⟨c, hc, hblank⟩ := h
  exact ⟨c, List.mem_head?_append_of_mem_head? hc, hblank⟩

theorem Ends.append (h : Ends ds) (cs : List Char) : Ends (cs ++ ds) := by
  obtain ⟨c, hc, hblank⟩ := h
  exact ⟨c, List.mem_getLast?_append_of_mem_getLast? hc, hblank⟩

/-- Two texts meet at a character that is not blank, or there is nothing before they meet. -/
def Meet (cs ds : List Char) : Prop :=
  (∀ c ∈ cs.getLast?, isBlank c = false) ∨ Begins ds

theorem Begins.meet (h : Begins ds) (cs : List Char) : Meet cs ds :=
  Or.inr h

theorem Ends.meet (h : Ends cs) (ds : List Char) : Meet cs ds := by
  obtain ⟨c, hc, hblank⟩ := h
  refine Or.inl fun d hd => ?_
  cases hc.symm.trans hd
  exact hblank

theorem dropEndWhile_of_meet (h : Meet cs ds) :
    dropEndWhile isBlank (cs ++ ds) = cs ++ dropEndWhile isBlank ds := by
  rw [dropEndWhile_append]
  split
  case isFalse => rfl
  case isTrue hnil =>
    rw [hnil, List.append_nil]
    rcases h with h | ⟨c, hc, h⟩
    · exact dropEndWhile_of_getLast? h
    · -- A text that begins in such a character is never trimmed to nothing.
      cases ds with
      | nil => cases hc
      | cons d rest =>
        cases hc
        rw [dropEndWhile] at hnil
        split at hnil
        · rw [h] at hnil
          cases hnil
        · cases hnil

theorem Meet.of_line (h : Meet line (cs ++ '\n' :: ds)) : Meet line cs := by
  refine h.imp_right ?_
  rintro ⟨c, hc, hblank⟩
  cases cs with
  | nil =>
    cases hc
    cases hblank
  | cons d rest => exact ⟨c, hc, hblank⟩

theorem Meet.of_more (h : Meet (line ++ '\n' :: cs) ds) : Meet cs ds := by
  refine h.imp_left fun h c hc => h c ?_
  rw [List.append_cons]
  exact List.mem_getLast?_append_of_mem_getLast? hc

/-- Where two texts meet so, blanks before line feeds can be taken away on each side by itself. -/
theorem settleChars_append (h : Meet cs ds) :
    settleChars (cs ++ ds) = settleChars cs ++ settleChars ds := by
  induction cs using line_induction with
  | last line hline =>
    rw [settleChars_line hline]
    induction ds using line_induction with
    | last other hother =>
      rw [settleChars_line hother, settleChars_line (by simp [hline, hother])]
    | more other rest hother _ =>
      rw [← List.append_assoc, settleChars_cons (by simp [hline, hother]), settleChars_cons hother,
        dropEndWhile_of_meet h.of_line, List.append_assoc]
  | more line rest hline ih =>
    rw [List.append_assoc, List.cons_append, settleChars_cons hline, settleChars_cons hline,
      ih h.of_more, List.append_assoc, List.cons_append]

/-! ## Tidying -/

/-- Of the lines that are kept of a text comes the text without the blanks at its end and before its
line feeds. -/
theorem joinLines_kept (cs : List Char) :
    let kept := dropEmptyEnd ((splitLines cs).map (dropEndWhile isBlank))
    joinLines kept = settleChars (dropEndWhile isBlank cs) ∧
      (kept = [] ↔ dropEndWhile isBlank cs = []) := by
  induction cs using line_induction with
  | last line hline =>
    rw [splitLines_of_not_mem hline, settleChars_line (not_mem_dropEndWhile _ hline)]
    by_cases h : dropEndWhile isBlank line = []
    · simp [dropEmptyEnd, joinLines, h]
    · simp [dropEmptyEnd, joinLines, h]
  | more line rest hline ih =>
    obtain ⟨hjoin, hnil⟩ := ih
    -- The line feed is a blank too, so it goes with the rest if nothing else is left of that.
    have hnewline : dropEndWhile isBlank (line ++ '\n' :: rest) =
        if dropEndWhile isBlank rest = [] then dropEndWhile isBlank line
        else line ++ '\n' :: dropEndWhile isBlank rest := by
      have hend : dropEndWhile isBlank (line ++ ['\n']) = dropEndWhile isBlank line := by
        rw [dropEndWhile_append, if_pos (by decide)]
      rw [List.append_cons, dropEndWhile_append, hend, ← List.append_cons]
    rw [splitLines_append hline, List.map_cons, hnewline]
    by_cases h : dropEndWhile isBlank rest = []
    · rw [if_pos h, settleChars_line (not_mem_dropEndWhile _ hline), dropEmptyEnd, hnil.2 h]
      by_cases hline : dropEndWhile isBlank line = []
      · simp [joinLines, hline]
      · simp [joinLines, hline]
    · have hkept : dropEmptyEnd ((splitLines rest).map (dropEndWhile isBlank)) ≠ [] :=
        fun heq => h (hnil.1 heq)
      rw [if_neg h, settleChars_cons hline, ← hjoin, dropEmptyEnd]
      split
      case h_1 heq => exact absurd heq hkept
      case h_2 => simp [joinLines_cons _ hkept]

theorem tidyLines_eq (cs : List Char) :
    tidyLines cs = settleChars (dropEndWhile isBlank cs) ++ ['\n'] := by
  rw [tidyLines, (joinLines_kept cs).1]

/-- What stands before a cut is settled, what stands behind it is tidied. -/
theorem tidyLines_append (h : Ends cs) (ds : List Char) :
    tidyLines (cs ++ ds) = settleChars cs ++ tidyLines ds := by
  rw [tidyLines_eq, dropEndWhile_of_meet (h.meet _), settleChars_append (h.meet _), tidyLines_eq,
    List.append_assoc]

/-- A part that begins and ends in characters that are not blank is settled, whatever is around. -/
theorem tidy_part {before part after : String} (hbegins : Begins part.toList)
    (hends : Ends part.toList) :
    tidy (before ++ part ++ after) = settle before ++ settle part ++ tidy after := by
  apply String.toList_inj.1
  simp only [tidy, settle, String.toList_append, String.toList_ofList]
  rw [tidyLines_append (hends.append _), settleChars_append (hbegins.meet _)]

theorem settle_append {s t : String} (h : Meet s.toList t.toList) :
    settle (s ++ t) = settle s ++ settle t := by
  rw [settle, String.toList_append, settleChars_append h, String.ofList_append]
  rfl

/-! ## Texts that are left alone -/

/-- No blank stands before a line feed, but for line feeds. -/
def Firm (cs : List Char) : Prop :=
  ∀ front c back, cs = front ++ c :: '\n' :: back → isBlank c = true → c = '\n'

theorem firm_line (h : '\n' ∉ line) : Firm line := by
  rintro front c back rfl
  simp at h

theorem firm_more_iff (hline : '\n' ∉ line) :
    Firm (line ++ '\n' :: cs) ↔ (∀ c ∈ line.getLast?, isBlank c = false) ∧ Firm cs := by
  constructor
  · intro h
    constructor
    · intro c hc
      obtain ⟨front, rfl⟩ := List.getLast?_eq_some_iff.1 hc
      by_contra hblank
      have heq := h front c cs (by simp) (by simpa using hblank)
      simp [heq] at hline
    · rintro front c back rfl
      exact h (line ++ '\n' :: front) c back (by simp)
  · rintro ⟨hend, hrest⟩ front c back heq hblank
    obtain ⟨between, rfl, htail⟩ | ⟨between, rfl, htail⟩ := List.append_eq_append_iff.1 heq
    · -- The blank stands behind the line.
      cases between with
      | nil => exact (List.cons.inj htail).1.symm
      | cons d more => exact hrest more c back (List.cons.inj htail).2 hblank
    · -- The blank stands in the line, so at its end, or is the line feed.
      cases between with
      | nil => exact (List.cons.inj htail).1
      | cons d more =>
        obtain ⟨rfl, hback⟩ := List.cons.inj htail
        cases more with
        | nil => exact absurd (hend c (by simp)) (by simp [hblank])
        | cons d more =>
          obtain ⟨rfl, -⟩ := List.cons.inj hback
          simp at hline

theorem settleChars_eq_self_iff : settleChars cs = cs ↔ Firm cs := by
  induction cs using line_induction with
  | last line hline => exact iff_of_true (settleChars_line hline) (firm_line hline)
  | more line rest hline ih =>
    rw [settleChars_cons hline, firm_more_iff hline, ← dropEndWhile_eq_self_iff, ← ih]
    constructor
    · intro h
      have hlines := congrArg splitLines h
      rw [splitLines_append (not_mem_dropEndWhile _ hline), splitLines_append hline] at hlines
      obtain ⟨hfirst, hmore⟩ := List.cons.inj hlines
      refine ⟨hfirst, ?_⟩
      rw [← joinLines_splitLines (settleChars rest), hmore, joinLines_splitLines]
    · rintro ⟨hfirst, hmore⟩
      rw [hfirst, hmore]

theorem settle_eq_self_iff {s : String} : settle s = s ↔ Firm s.toList := by
  rw [← settleChars_eq_self_iff, settle, ← String.toList_inj, String.toList_ofList]

theorem Firm.within (h : Firm ds) (hcs : cs <:+: ds) : Firm cs := by
  rintro front c back rfl hblank
  obtain ⟨before, after, rfl⟩ := hcs
  exact h (before ++ front) c (back ++ after) (by simp) hblank

theorem firm_settleChars (cs : List Char) : Firm (settleChars cs) := by
  induction cs using line_induction with
  | last line hline =>
    rw [settleChars_line hline]
    exact firm_line hline
  | more line rest hline ih =>
    rw [settleChars_cons hline, firm_more_iff (not_mem_dropEndWhile _ hline)]
    exact ⟨getLast?_dropEndWhile isBlank line, ih⟩

/-- No line of a tidy text ends in a blank. -/
theorem firm_tidyLines (cs : List Char) : Firm (tidyLines cs) := by
  have hnewline : tidyLines cs = settleChars (dropEndWhile isBlank cs ++ ['\n']) := by
    rw [settleChars_append (Or.inl (getLast?_dropEndWhile isBlank cs)), tidyLines_eq]
    rfl
  rw [hnewline]
  exact firm_settleChars _

theorem firm_tidy (s : String) : Firm (tidy s).toList := by
  rw [tidy, String.toList_ofList]
  exact firm_tidyLines _

end PageBuilder.Text
