/-!
# Blank characters and trimming

Two sets of blank characters are in use.  `isSpace` is the Unicode property White_Space, and what
trimming of numerals goes by.  `isBlank` adds the four information separators U+001C to U+001F,
and is what trimming of bound expressions and source lines goes by.
-/

namespace PageBuilder.Text

/-- The Unicode property White_Space. -/
def isSpace (c : Char) : Bool :=
  let n := c.toNat
  (0x09 ≤ n && n ≤ 0x0d) || n == 0x20 || n == 0x85 || n == 0xa0 || n == 0x1680 ||
    (0x2000 ≤ n && n ≤ 0x200a) || n == 0x2028 || n == 0x2029 || n == 0x202f || n == 0x205f ||
    n == 0x3000

/-- White space and the four information separators. -/
def isBlank (c : Char) : Bool :=
  isSpace c || (0x1c ≤ c.toNat && c.toNat ≤ 0x1f)

/-- Drops the longest tail of which every character satisfies `p`. -/
def dropEndWhile (p : Char → Bool) : List Char → List Char
  | [] => []
  | c :: rest =>
    match dropEndWhile p rest with
    | [] => if p c then [] else [c]
    | kept => c :: kept

/-- Drops characters satisfying `p` at both ends. -/
def trimWhile (p : Char → Bool) (cs : List Char) : List Char :=
  dropEndWhile p (cs.dropWhile p)

/-- Whether a text is blank throughout; the empty text is. -/
def isBlankText (s : String) : Bool :=
  s.toList.all isBlank

/-- What is left does not end in a dropped character. -/
theorem getLast?_dropEndWhile (p : Char → Bool) (cs : List Char) :
    ∀ c, (dropEndWhile p cs).getLast? = some c → p c = false := by
  induction cs with
  | nil => simp [dropEndWhile]
  | cons a rest ih =>
    intro c h
    unfold dropEndWhile at h
    split at h
    · split at h <;> simp_all
    · rename_i kept hk
      exact ih c (by
        cases hd : dropEndWhile p rest with
        | nil => exact absurd hd (by simpa using hk)
        | cons b t => rw [hd] at h; simpa [List.getLast?_cons_cons] using h)

end PageBuilder.Text
