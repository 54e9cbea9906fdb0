import PageBuilder.Text.Blank

/-!
# Lines

A text is a list of lines separated by line feeds; the empty text is one empty line.  `tidy` is
the final layout pass of everything generated: no line ends in blanks, no empty lines at the end,
one final line feed.
-/

namespace PageBuilder.Text

/-- The lines of a text. -/
def splitLines : List Char → List (List Char)
  | [] => [[]]
  | c :: rest =>
    if c = '\n' then [] :: splitLines rest
    else
      match splitLines rest with
      | [] => [[c]]
      | line :: more => (c :: line) :: more

/-- Lines put together again, separated by line feeds. -/
def joinLines : List (List Char) → List Char
  | [] => []
  | [line] => line
  | line :: rest => line ++ '\n' :: joinLines rest

/-- Without the empty lines at the end. -/
def dropEmptyEnd : List (List Char) → List (List Char)
  | [] => []
  | line :: rest =>
    match dropEmptyEnd rest with
    | [] => if line.isEmpty then [] else [line]
    | kept => line :: kept

/-- Lines without the blanks at their ends, without empty lines at the end of the text, and one
line feed after the last. -/
def tidyLines (cs : List Char) : List Char :=
  joinLines (dropEmptyEnd ((splitLines cs).map (dropEndWhile isBlank))) ++ ['\n']

def tidy (s : String) : String :=
  String.ofList (tidyLines s.toList)

/-- Carriage returns, alone or before a line feed, become line feeds. -/
def unifyNewlines : List Char → List Char
  | [] => []
  | '\r' :: '\n' :: rest => '\n' :: unifyNewlines rest
  | c :: rest => (if c = '\r' then '\n' else c) :: unifyNewlines rest

/-- A list of texts with a separator between neighbours. -/
def join (separator : String) : List String → String
  | [] => ""
  | [s] => s
  | s :: rest => s ++ separator ++ join separator rest

theorem splitLines_ne_nil (cs : List Char) : splitLines cs ≠ [] := by
  cases cs with
  | nil => simp [splitLines]
  | cons c rest =>
    unfold splitLines
    split
    · simp
    · split <;> simp

/-- Splitting loses nothing. -/
theorem joinLines_splitLines (cs : List Char) : joinLines (splitLines cs) = cs := by
  induction cs with
  | nil => rfl
  | cons c rest ih =>
    cases hs : splitLines rest with
    | nil => exact absurd hs (splitLines_ne_nil rest)
    | cons line more =>
      rw [hs] at ih
      by_cases h : c = '\n'
      · simp [splitLines, h, hs, joinLines, ih]
      · cases more <;> simp_all [splitLines, joinLines]

end PageBuilder.Text
