import Mathlib.Data.List.Forall2
import PageBuilder.Proofs.Source.Template
import PageBuilder.Proofs.Text.Settled

/-!
# Tidied texts

The layout pass brings every text into a normal form: no line ends in a blank, and one line feed
ends the text (`IsTidy`).  It takes away nothing but the blanks at the ends of lines and the empty
lines at the end of the text (`Tidies`), so texts in normal form are the ones it leaves alone.
Whatever is generated has gone through it last, so a renderer can put nothing into a source file
that would break the layout.
-/

namespace PageBuilder

open Results

namespace Text

variable {cs : List Char} {lines : List (List Char)} {s : String}

/-! ## Lines -/

theorem not_mem_of_mem_splitLines : ∀ line ∈ splitLines cs, '\n' ∉ line := by
  induction cs using line_induction with
  | last line hline => simpa [splitLines_of_not_mem hline] using hline
  | more line rest hline ih =>
    rw [splitLines_append hline]
    exact List.forall_mem_cons.2 ⟨hline, ih⟩

theorem splitLines_append_newline (cs : List Char) :
    splitLines (cs ++ ['\n']) = splitLines cs ++ [[]] := by
  induction cs using line_induction with
  | last line hline => rw [splitLines_append hline, splitLines_of_not_mem hline, splitLines]; rfl
  | more line rest hline ih =>
    rw [List.append_assoc, List.cons_append, splitLines_append hline, splitLines_append hline, ih,
      List.cons_append]

theorem joinLines_append_nil (hne : lines ≠ []) :
    joinLines (lines ++ [[]]) = joinLines lines ++ ['\n'] := by
  induction lines with
  | nil => exact absurd rfl hne
  | cons line rest ih =>
    by_cases hrest : rest = []
    · rw [hrest]
      rfl
    · rw [List.cons_append, joinLines_cons line (by simp), ih hrest, joinLines_cons line hrest,
        List.append_assoc, List.cons_append]

/-- The last line of a text is empty only if there is no text before it or a line feed. -/
theorem exists_of_getLast?_splitLines (h : (splitLines cs).getLast? = some []) :
    cs = [] ∨ ∃ front, cs = front ++ ['\n'] := by
  induction cs using line_induction with
  | last line hline =>
    rw [splitLines_of_not_mem hline] at h
    exact Or.inl (by simpa using h)
  | more line rest hline ih =>
    obtain ⟨first, more, hmore⟩ := List.exists_cons_of_ne_nil (splitLines_ne_nil rest)
    rw [splitLines_append hline, hmore, List.getLast?_cons_cons, ← hmore] at h
    rcases ih h with rfl | ⟨front, rfl⟩
    · exact Or.inr ⟨line, rfl⟩
    · exact Or.inr ⟨line ++ '\n' :: front, by simp⟩

/-- What is left of a line without the blanks at its end. -/
structure Trimmed (line left : List Char) : Prop where
  blanks : ∃ blanks, line = left ++ blanks ∧ ∀ c ∈ blanks, isBlank c = true
  ends : ∀ c ∈ left.getLast?, isBlank c = false

theorem exists_dropped (p : Char → Bool) (cs : List Char) :
    ∃ dropped, cs = dropEndWhile p cs ++ dropped ∧ ∀ c ∈ dropped, p c = true := by
  induction cs with
  | nil => exact ⟨[], rfl, nofun⟩
  | cons c rest ih =>
    obtain ⟨dropped, hrest, hdropped⟩ := ih
    rw [dropEndWhile]
    split
    case h_1 hnil =>
      rw [hnil, List.nil_append] at hrest
      rw [← hrest] at hdropped
      split
      case isTrue hc => exact ⟨c :: rest, rfl, List.forall_mem_cons.2 ⟨hc, hdropped⟩⟩
      case isFalse => exact ⟨rest, rfl, hdropped⟩
    case h_2 => exact ⟨dropped, congrArg (c :: ·) hrest, hdropped⟩

theorem trimmed_dropEndWhile (line : List Char) : Trimmed line (dropEndWhile isBlank line) :=
  ⟨exists_dropped isBlank line, getLast?_dropEndWhile isBlank line⟩

/-- Of lines the empty ones at the end are dropped, and no others. -/
theorem exists_dropEmptyEnd (lines : List (List Char)) :
    (∃ n, lines = dropEmptyEnd lines ++ List.replicate n []) ∧
      (dropEmptyEnd lines).getLast? ≠ some [] := by
  induction lines with
  | nil => exact ⟨⟨0, rfl⟩, nofun⟩
  | cons line rest ih =>
    obtain ⟨⟨n, hrest⟩, hlast⟩ := ih
    rw [dropEmptyEnd]
    split
    case h_1 hnil =>
      rw [hnil, List.nil_append] at hrest
      by_cases hline : line = []
      · exact ⟨⟨n + 1, by simp [hline, List.replicate_succ, ← hrest]⟩, by simp [hline]⟩
      · exact ⟨⟨n, by simp [hline, ← hrest]⟩, by simp [hline]⟩
    case h_2 hne =>
      refine ⟨⟨n, congrArg (line :: ·) hrest⟩, ?_⟩
      obtain ⟨first, more, hkept⟩ := List.exists_cons_of_ne_nil hne
      rw [hkept, List.getLast?_cons_cons, ← hkept]
      exact hlast

theorem getLast?_joinLines {line : List Char} (hlast : lines.getLast? = some line)
    (hne : line ≠ []) : (joinLines lines).getLast? = line.getLast? := by
  induction lines with
  | nil => cases hlast
  | cons first rest ih =>
    by_cases hrest : rest = []
    · subst hrest
      obtain rfl := Option.some.inj hlast
      rfl
    · obtain ⟨next, more, rfl⟩ := List.exists_cons_of_ne_nil hrest
      rw [List.getLast?_cons_cons] at hlast
      have hsome : (joinLines (next :: more)).getLast?.isSome = true := by
        rw [ih hlast]
        simpa using hne
      rw [joinLines_cons first hrest, List.append_cons, List.getLast?_append,
        Option.or_of_isSome hsome, ih hlast]

/-! ## The normal form -/

/-- No line ends in a blank, and the text ends in one line feed. -/
structure IsTidy (s : String) : Prop where
  lines : ∀ line ∈ splitLines s.toList, ∀ c ∈ line.getLast?, isBlank c = false
  ends : ∃ front, s.toList = front ++ ['\n']
  once : ∀ front, s.toList ≠ front ++ ['\n', '\n']

/-- The lines of one text are those of another in their order, each without the blanks at its end,
and without the empty ones at the end.  A text of which none is left is one empty line. -/
def Tidies (before after : String) : Prop :=
  ∃ kept n, List.Forall₂ Trimmed (splitLines before.toList) (kept ++ List.replicate n []) ∧
    kept.getLast? ≠ some [] ∧
    splitLines after.toList = (if kept = [] then [[]] else kept) ++ [[]]

/-- The lines that are kept of a text. -/
def keptLines (cs : List Char) : List (List Char) :=
  dropEmptyEnd ((splitLines cs).map (dropEndWhile isBlank))

theorem getLast?_keptLines (cs : List Char) : (keptLines cs).getLast? ≠ some [] :=
  (exists_dropEmptyEnd _).2

theorem neat_keptLines (cs : List Char) : ∀ line ∈ keptLines cs, Neat line := by
  intro line hm
  obtain ⟨n, hkept⟩ := (exists_dropEmptyEnd ((splitLines cs).map (dropEndWhile isBlank))).1
  have hm : line ∈ (splitLines cs).map (dropEndWhile isBlank) := by
    rw [hkept]
    exact List.mem_append_left _ hm
  obtain ⟨long, hlong, rfl⟩ := List.mem_map.1 hm
  exact ⟨not_mem_dropEndWhile _ (not_mem_of_mem_splitLines long hlong),
    getLast?_dropEndWhile isBlank long⟩

theorem splitLines_tidyLines (cs : List Char) :
    splitLines (tidyLines cs) = (if keptLines cs = [] then [[]] else keptLines cs) ++ [[]] := by
  have hjoin : tidyLines cs =
      joinLines ((if keptLines cs = [] then [[]] else keptLines cs) ++ [[]]) := by
    rw [tidyLines, ← keptLines]
    split
    case isTrue hnil =>
      rw [hnil]
      rfl
    case isFalse hne => rw [joinLines_append_nil hne]
  rw [hjoin]
  refine splitLines_joinLines (by simp) (List.forall_mem_append.2 ⟨?_, by simp⟩)
  split
  case isTrue => simp
  case isFalse => exact fun line hm => (neat_keptLines cs line hm).1

theorem tidies_tidy (s : String) : Tidies s (tidy s) := by
  obtain ⟨n, hkept⟩ :=
    (exists_dropEmptyEnd ((splitLines s.toList).map (dropEndWhile isBlank))).1
  refine ⟨keptLines s.toList, n, ?_, getLast?_keptLines s.toList, ?_⟩
  · rw [keptLines, ← hkept, List.forall₂_map_right_iff, List.forall₂_same]
    exact fun line _ => trimmed_dropEndWhile line
  · rw [tidy, String.toList_ofList, splitLines_tidyLines]

theorem isTidy_tidy (s : String) : IsTidy (tidy s) where
  lines := by
    rw [tidy, String.toList_ofList, splitLines_tidyLines]
    refine List.forall_mem_append.2 ⟨?_, by simp⟩
    split
    case isTrue => simp
    case isFalse => exact fun line hm => (neat_keptLines s.toList line hm).2
  ends := ⟨_, String.toList_ofList⟩
  once := by
    intro front heq
    rw [tidy, String.toList_ofList, tidyLines, ← keptLines, List.append_cons front] at heq
    -- Before the last line feed the last line that is kept ends, and not in a blank.
    have hfront : joinLines (keptLines s.toList) = front ++ ['\n'] :=
      List.append_cancel_right heq
    cases hlast : (keptLines s.toList).getLast? with
    | none =>
      rw [List.getLast?_eq_none_iff.1 hlast] at hfront
      simp [joinLines] at hfront
    | some line =>
      have hne : line ≠ [] := by
        rintro rfl
        exact getLast?_keptLines s.toList hlast
      have hend := getLast?_joinLines hlast hne
      rw [hfront, List.getLast?_append, List.getLast?_singleton, Option.some_or] at hend
      exact absurd ((neat_keptLines s.toList line (List.mem_of_getLast? hlast)).2 '\n' hend.symm)
        (by decide)

/-- A text in normal form is left alone, and no other is. -/
theorem tidy_eq_self_iff : tidy s = s ↔ IsTidy s := by
  constructor
  · intro h
    rw [← h]
    exact isTidy_tidy s
  · rintro ⟨hlines, ⟨front, hfront⟩, honce⟩
    rw [hfront, splitLines_append_newline, List.forall_mem_append] at hlines
    rw [← String.toList_inj, tidy, String.toList_ofList, hfront]
    by_cases hempty : front = []
    · rw [hempty]
      decide
    have hneat : ∀ line ∈ splitLines front, Neat line :=
      fun line hm => ⟨not_mem_of_mem_splitLines line hm, hlines.1 line hm⟩
    have hlast : (splitLines front).getLast? ≠ some [] := by
      intro hnil
      obtain hnil | ⟨before, rfl⟩ := exists_of_getLast?_splitLines hnil
      · exact hempty hnil
      · exact honce before (by simp [hfront])
    have htidy := tidyLines_of_neat hneat hlast
    rwa [joinLines_append_nil (splitLines_ne_nil front), joinLines_splitLines] at htidy

end Text

/-! ## Generated texts -/

namespace Source

open Text

variable {snapshot : Snapshot} {options : Options} {catalog : Catalog}

/-- Whatever a renderer makes of the template is tidied. -/
theorem exists_of_generateThrough {render : Renderer} {source : Source}
    (h : generateThrough render snapshot options catalog = .ok source) :
    ∃ text, source.text = tidy text := by
  obtain ⟨-, -, h⟩ := exists_of_bind h
  obtain ⟨known, -, h⟩ := exists_of_bind h
  obtain ⟨unit, -, h⟩ := exists_of_bind h
  obtain ⟨body, -, h⟩ := exists_of_bind h
  obtain rfl := Except.ok.inj h
  exact ⟨_, rfl⟩

theorem exists_of_generateMarkup {root markup : String} (hroot : snapshot.page.root = some root)
    (h : generateMarkup snapshot options catalog = .ok markup) :
    ∃ text, markup = tidy text := by
  obtain ⟨known, -, h⟩ := exists_of_bind h
  rw [hroot] at h
  obtain ⟨unit, -, h⟩ := exists_of_bind h
  obtain ⟨lines, -, h⟩ := exists_of_bind h
  obtain rfl := Except.ok.inj h
  exact ⟨_, rfl⟩

/-- Tidying takes away the blanks at the ends of lines and the empty lines at the end of a text, and
nothing else; what is left is in normal form, and tidying it again changes nothing.  So source files
are in normal form, whatever renderer fills in their template, and so is the markup of a page that
is not empty. -/
theorem tidying_normalises :
    (∀ s, IsTidy (tidy s) ∧ Tidies s (tidy s) ∧ tidy (tidy s) = tidy s) ∧
    ∀ (snapshot : Snapshot) (options : Options) (catalog : Catalog),
      (∀ source, generate snapshot options catalog = .ok source → IsTidy source.text) ∧
      (∀ render source, generateThrough render snapshot options catalog = .ok source →
        IsTidy source.text) ∧
      ∀ root markup, snapshot.page.root = some root →
        generateMarkup snapshot options catalog = .ok markup → IsTidy markup := by
  refine ⟨fun s => ⟨isTidy_tidy s, tidies_tidy s, tidy_eq_self_iff.2 (isTidy_tidy s)⟩, ?_⟩
  intro snapshot options catalog
  have hthrough : ∀ render source, generateThrough render snapshot options catalog = .ok source →
      IsTidy source.text := by
    intro render source h
    obtain ⟨text, htext⟩ := exists_of_generateThrough h
    rw [htext]
    exact isTidy_tidy text
  refine ⟨fun source h => ?_, hthrough, fun root markup hroot h => ?_⟩
  · exact hthrough fillTags source ((generateThrough_eq fillsIn_fillTags _ _ _).trans h)
  · obtain ⟨text, rfl⟩ := exists_of_generateMarkup hroot h
    exact isTidy_tidy text

/-- A text bound to an expression on four lines, of which only the last two hold anything else than
blanks. -/
def spread : Page :=
  { elements := .ofList [
      ("a", ⟨"a", "text", .ofList [("title", .binding (.str " \x0b\n\u2003\nx\x1c\ny"))], .empty,
        [], none⟩)]
    root := some "a" }

/-- Blanks of all kinds before line feeds and at the end, alone and around an expression. -/
theorem tidying_normalises_spread :
    tidy "a\x0b\n\u2003\nb\u3000\x1c\n \n\t" = "a\n\nb\n" ∧ IsTidy "a\n\nb\n" ∧
      tidy "a\n\nb\n" = "a\n\nb\n" ∧
    ∃ source markup, generate { page := spread } {} .builtIn = .ok source ∧
      generateMarkup { page := spread } {} .builtIn = .ok markup ∧
      markup = "<Text title=\x7b\n\nx\ny\x7d />\n" ∧ IsTidy source.text ∧ IsTidy markup := by
  obtain ⟨htexts, hgenerated⟩ := tidying_normalises
  have htidy : tidy "a\x0b\n\u2003\nb\u3000\x1c\n \n\t" = "a\n\nb\n" := by decide +kernel
  obtain ⟨hnormal, -, hagain⟩ := htexts "a\x0b\n\u2003\nb\u3000\x1c\n \n\t"
  rw [htidy] at hnormal hagain
  have hsource : (generate { page := spread } {} .builtIn).toOption.any (fun _ => true) = true := by
    decide +kernel
  have hmarkup : (generateMarkup { page := spread } {} .builtIn).toOption.any (fun markup =>
      markup = "<Text title=\x7b\n\nx\ny\x7d />\n") = true := by
    decide +kernel
  obtain ⟨source, hsource, -⟩ := exists_of_any hsource
  obtain ⟨markup, hmarkup, hwritten⟩ := exists_of_any hmarkup
  obtain ⟨hfile, -, hsnippet⟩ := hgenerated { page := spread } {} .builtIn
  exact ⟨htidy, hnormal, hagain, source, markup, hsource, hmarkup, of_decide_eq_true hwritten,
    hfile source hsource, hsnippet "a" markup rfl hmarkup⟩

end Source

end PageBuilder
