import PageBuilder.Json.Basic
import PageBuilder.Number.Decimal
import PageBuilder.Text.Hex
import PageBuilder.Text.Lines

/-!
# Writing JSON

Members are written in increasing order of their keys, by code points.  `pretty` indents by two
spaces and leaves characters beyond ASCII as they are; `compact` has no blanks and is ASCII only.
Both write integers in full; whether none is too long is asked of `fits` first.
-/

namespace PageBuilder.Json

open PageBuilder.Text

/-- A `\u` escape of one code unit. -/
def unitEscape (n : Nat) : List Char :=
  '\\' :: 'u' :: hexNumeral 4 n

/-- A character inside a string, characters beyond ASCII as they are. -/
def plainChar (c : Char) : List Char :=
  if c = '"' || c = '\\' then ['\\', c]
  else if c = '\n' then ['\\', 'n']
  else if c = '\r' then ['\\', 'r']
  else if c = '\t' then ['\\', 't']
  else if c = '\x08' then ['\\', 'b']
  else if c = '\x0c' then ['\\', 'f']
  else if c.toNat ≤ 0x1f then unitEscape c.toNat
  else [c]

/-- A character inside a string, in ASCII: one beyond the basic plane as two code units. -/
def asciiChar (c : Char) : List Char :=
  let n := c.toNat
  if n ≤ 0x7e then plainChar c
  else if n ≤ 0xffff then unitEscape n
  else unitEscape (0xd800 + (n - 0x10000) / 0x400) ++ unitEscape (0xdc00 + (n - 0x10000) % 0x400)

/-- A string literal, with a given way of writing characters. -/
def literal (char : Char → List Char) (s : String) : String :=
  String.ofList ('"' :: s.toList.flatMap char ++ ['"'])

def floatText : Double → String
  | .nan => "NaN"
  | .infinite negative => if negative then "-Infinity" else "Infinity"
  | x => x.text

/-- Texts of members in increasing order of their keys. -/
def sortMembers (members : List (String × String)) : List (String × String) :=
  members.mergeSort fun a b => a.1 ≤ b.1

/-- How a text is laid out. -/
structure Style where
  char : Char → List Char
  /-- Between key and value. -/
  colon : String
  /-- What separates the parts of a list or object at a depth; `none` for nothing but a comma. -/
  indent : Option Nat

/-- The line break and indentation before a part at a depth. -/
def Style.break (style : Style) (depth : Nat) : String :=
  match style.indent with
  | none => ""
  | some width => String.ofList ('\n' :: List.replicate (width * depth) ' ')

/-- Parts between brackets, one per line when the style has lines. -/
def Style.enclose (style : Style) (left right : String) (depth : Nat) (parts : List String) :
    String :=
  if parts.isEmpty then left ++ right
  else
    left ++ style.break (depth + 1) ++ join ("," ++ style.break (depth + 1)) parts ++
      style.break depth ++ right

mutual

/-- The text of a value at a depth. -/
def render (style : Style) (depth : Nat) : Json → String
  | .null => "null"
  | .bool b => if b then "true" else "false"
  | .int n => Number.numeral n
  | .float x => floatText x
  | .str s => literal style.char s
  | .array items => style.enclose "[" "]" depth (renderItems style (depth + 1) items)
  | .object members =>
    style.enclose "\x7b" "\x7d" depth
      ((sortMembers (renderMembers style (depth + 1) members)).map fun m =>
        literal style.char m.1 ++ style.colon ++ m.2)

def renderItems (style : Style) (depth : Nat) : List Json → List String
  | [] => []
  | item :: rest => render style depth item :: renderItems style depth rest

def renderMembers (style : Style) (depth : Nat) : List (String × Json) → List (String × String)
  | [] => []
  | (key, value) :: rest => (key, render style depth value) :: renderMembers style depth rest

end

mutual

/-- Whether every integer in a value has few enough digits to be written. -/
def fits : Json → Bool
  | .int n => Number.fits n
  | .array items => itemsFit items
  | .object members => membersFit members
  | _ => true

def itemsFit : List Json → Bool
  | [] => true
  | item :: rest => fits item && itemsFit rest

def membersFit : List (String × Json) → Bool
  | [] => true
  | (_, value) :: rest => fits value && membersFit rest

end

/-- Two spaces for each level, one space after a colon. -/
def prettyStyle : Style := ⟨plainChar, ": ", some 2⟩

/-- No blanks, ASCII only. -/
def compactStyle : Style := ⟨asciiChar, ":", none⟩

def pretty (value : Json) : String :=
  render prettyStyle 0 value

def compact (value : Json) : String :=
  render compactStyle 0 value

end PageBuilder.Json
