import PageBuilder.Text.Blank

/-!
# Integers written as texts in documents

Where a document may give an integer as a text, the text is read leniently: white space around it,
a plus sign, leading zeros, a fraction of zeros, and underscores between digits are let pass.
Leading zeros are dropped after the sign, or before it.
-/

namespace PageBuilder.Number.Lenient

open PageBuilder.Text

def isNonZeroDigit (c : Char) : Bool :=
  '1' ≤ c && c ≤ '9'

/-- What is left after zeros and underscores, the last of which is kept when nothing or a point
follows; nothing when they are followed by anything but a digit, a point or a minus sign. -/
def afterZeros (last : Char) : List Char → Option (List Char)
  | [] => some [last]
  | c :: rest =>
    if c = '0' || c = '_' then afterZeros c rest
    else if isNonZeroDigit c || c = '-' then some (c :: rest)
    else if c = '.' then some (last :: c :: rest)
    else none

/-- Drops leading zeros; nothing when the text begins with neither a digit nor a minus sign. -/
def dropZeros : List Char → Option (List Char)
  | [] => none
  | c :: rest =>
    if c = '0' then afterZeros c rest
    else if isNonZeroDigit c || c = '-' then some (c :: rest)
    else none

/-- Drops leading zeros after a minus sign, or from the front of a text without one. -/
def dropSignedZeros : List Char → Option (List Char)
  | '-' :: rest => (dropZeros rest).map ('-' :: ·)
  | cs => dropZeros cs

/-- Drops a point and the zeros after it, of which there is at least one, that end the text. -/
def dropFraction (cs : List Char) : List Char :=
  match cs.dropWhile (· ≠ '.') with
  | [] => cs
  | _ :: fraction =>
    if !fraction.isEmpty && fraction.all (· = '0') then cs.takeWhile (· ≠ '.') else cs

/-- Whether underscores stand only between other characters, one at a time. -/
def separates : List Char → Bool
  | [] => true
  | ['_'] => false
  | '_' :: '_' :: _ => false
  | _ :: rest => separates rest

def dropSeparators (cs : List Char) : List Char :=
  if cs.head? ≠ some '_' && separates cs then cs.filter (· ≠ '_') else cs

/-- Digits without a leading zero. -/
def natural? (cs : List Char) : Option Nat :=
  if cs.isEmpty || !cs.all Char.isDigit || (cs.head? = some '0' && cs.length ≠ 1) then none
  else some (cs.foldl (fun n c => n * 10 + (c.toNat - 0x30)) 0)

/-- The text without a plus sign; nothing when a minus sign follows it. -/
def dropPlus : List Char → Option (List Char)
  | '+' :: '-' :: _ => none
  | '+' :: rest => some rest
  | cs => some cs

def integer? (s : String) : Option Int := do
  let unsigned ← dropPlus (trimWhile isSpace s.toList)
  let cs ← dropSignedZeros unsigned
  match dropSeparators (dropFraction cs) with
  | '-' :: digits => (natural? digits).map fun n => -(n : Int)
  | digits => (natural? digits).map Int.ofNat

end PageBuilder.Number.Lenient
