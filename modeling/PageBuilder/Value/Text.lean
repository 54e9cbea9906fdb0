import PageBuilder.Value.Basic
import PageBuilder.Number.Decimal
import PageBuilder.Text.Lines
import PageBuilder.Text.Quoted

/-!
# Values as text

`quoted` is how messages show a value: texts in quotes, the parts of lists and objects separated
by commas.  `text` is what a value contributes to generated code and class names: a text itself,
any other value as it is quoted.

A value with a part that has no text has none itself; whoever needs its text asks `checkText`
first.
-/

namespace PageBuilder

/-- Why a value has no text. -/
inductive TextFault
  /-- An integer has too many digits. -/
  | longInteger
  /-- A part is nested too deeply. -/
  | tooDeep
deriving DecidableEq, Repr

def TextFault.message : TextFault → String
  | .longInteger =>
    "Exceeds the limit (" ++ toString Number.digitLimit ++ " digits) for integer string " ++
      "conversion; use sys.set_int_max_str_digits() to increase the limit"
  | .tooDeep => "maximum recursion depth exceeded while getting the repr of an object"

namespace Value

open PageBuilder.Text

mutual

/-- Why a value has no text: the fault of the first part, in the order of writing, that has
none. -/
def textFault? : Value → Option TextFault
  | .int n => if Number.fits n then none else some .longInteger
  | .binding e => textFault? e
  | .list items => itemsFault? items
  | .dict fields => fieldsFault? fields
  | .tooDeep => some .tooDeep
  | _ => none

def itemsFault? : List Value → Option TextFault
  | [] => none
  | item :: rest => (textFault? item).or (itemsFault? rest)

def fieldsFault? : List (String × Value) → Option TextFault
  | [] => none
  | (_, value) :: rest => (textFault? value).or (fieldsFault? rest)

end

/-- Whether a value has a text. -/
def checkText (value : Value) : Except TextFault Unit :=
  match value.textFault? with
  | some fault => .error fault
  | none => .ok ()

mutual

/-- A value as messages show it, if it has a text. -/
def quoted : Value → String
  | .null => "None"
  | .bool b => if b then "True" else "False"
  | .int n => Number.numeral n
  | .float x => x.text
  | .str s => quote s
  | .binding e => "Binding(expression=" ++ quoted e ++ ")"
  | .list items => "[" ++ join ", " (quotedItems items) ++ "]"
  | .dict fields => "\x7b" ++ join ", " (quotedFields fields) ++ "\x7d"
  | .tooDeep => "..."

def quotedItems : List Value → List String
  | [] => []
  | item :: rest => quoted item :: quotedItems rest

def quotedFields : List (String × Value) → List String
  | [] => []
  | (key, value) :: rest => (quote key ++ ": " ++ quoted value) :: quotedFields rest

end

/-- A value as text, if it has one. -/
def text : Value → String
  | .str s => s
  | value => quoted value

/-- A list of names in parentheses, as messages show it. -/
def quotedNames (names : List String) : String :=
  "(" ++ join ", " (names.map quote) ++ ")"

end Value

end PageBuilder
