import PageBuilder.Text.Hex
import PageBuilder.Text.Printable

/-!
# Quoted texts

How messages and nested values show a text: between single quotes, or between double quotes
when the text holds a single quote and no double one.  The backslash, the chosen quote, line
feed, carriage return and tab are escaped by a backslash; any other unprintable character by its
code point in two, four or eight hexadecimal digits.
-/

namespace PageBuilder.Text

/-- The quote a text is put between. -/
def quoteMark (cs : List Char) : Char :=
  if cs.contains '\'' && !cs.contains '"' then '"' else '\''

/-- One character inside quotes `mark`. -/
def quotedChar (mark c : Char) : List Char :=
  if c = '\\' || c = mark then ['\\', c]
  else if c = '\n' then ['\\', 'n']
  else if c = '\r' then ['\\', 'r']
  else if c = '\t' then ['\\', 't']
  else if isPrintable c then [c]
  else if c.toNat ≤ 0xff then '\\' :: 'x' :: hexNumeral 2 c.toNat
  else if c.toNat ≤ 0xffff then '\\' :: 'u' :: hexNumeral 4 c.toNat
  else '\\' :: 'U' :: hexNumeral 8 c.toNat

/-- A text as messages quote it. -/
def quote (s : String) : String :=
  let mark := quoteMark s.toList
  String.ofList (mark :: s.toList.flatMap (quotedChar mark) ++ [mark])

/-- The first characters of a text as messages quote it; a longer one loses its closing quote. -/
def quoteWithin (limit : Nat) (s : String) : String :=
  String.ofList ((quote s).toList.take limit)

end PageBuilder.Text
