import PageBuilder.Json.Basic
import PageBuilder.Number.Decimal
import PageBuilder.Text.Hex

/-!
# Reading JSON

The reader works on the list of characters still to be read.  A refusal names its cause and the
characters from its place on, from which the position in the whole text follows.

Besides standard JSON it takes `NaN`, `Infinity` and `-Infinity`.  Of a repeated key the last value
counts, in the place of the first.  A number with a fraction or an exponent is a double, any other
an integer, which must not have too many digits.

Characters are Unicode scalar values.  Half a surrogate pair, which a `\u` escape can denote and no
text can hold, becomes the replacement character, so nothing that is said of documents with such
escapes is meant.
-/

namespace PageBuilder.Json

open PageBuilder.Text

inductive Cause
  | byteOrderMark
  | value
  | propertyName
  | colon
  | comma
  | extraData
  | unterminatedString
  | controlCharacter
  | escape
  | unicodeEscape
  /-- An integer of so many digits, which are too many. -/
  | longNumeral (digits : Nat)
deriving DecidableEq, Repr

def Cause.text : Cause → String
  | .byteOrderMark => "Unexpected UTF-8 BOM (decode using utf-8-sig)"
  | .value => "Expecting value"
  | .propertyName => "Expecting property name enclosed in double quotes"
  | .colon => "Expecting ':' delimiter"
  | .comma => "Expecting ',' delimiter"
  | .extraData => "Extra data"
  | .unterminatedString => "Unterminated string starting at"
  | .controlCharacter => "Invalid control character at"
  | .escape => "Invalid \\escape"
  | .unicodeEscape => "Invalid \\uXXXX escape"
  | .longNumeral _ => "Integer too long"

/-- A refusal while reading, with the characters from its place to the end. -/
structure Stop where
  cause : Cause
  remaining : List Char
deriving DecidableEq, Repr

/-- Something read, and the characters after it. -/
abbrev Reading (α : Type) := Except Stop (α × List Char)

/-- The four blank characters of JSON. -/
def isGap (c : Char) : Bool :=
  c = ' ' || c = '\t' || c = '\n' || c = '\r'

def skipGap (cs : List Char) : List Char :=
  cs.dropWhile isGap

/-- What follows a given word. -/
def afterWord? : List Char → List Char → Option (List Char)
  | [], cs => some cs
  | w :: word, c :: cs => if w = c then afterWord? word cs else none
  | _ :: _, [] => none

/-! ## Numbers -/

/-- The integer part of a number: a single zero, or digits that do not begin with one. -/
def integerPart? : List Char → Option (Nat × List Char)
  | '0' :: rest => some (0, rest)
  | c :: rest =>
    if c.isDigit then
      let (n, _, rest') := Double.digitRun 0 0 (c :: rest)
      some (n, rest')
    else none
  | [] => none

/-- A number at the front of a text.  A point without digits after it, or an exponent mark without
digits, is not part of the number. -/
def number? (cs : List Char) : Option (Json × List Char) :=
  let (negative, body) : Bool × List Char :=
    match cs with
    | '-' :: rest => (true, rest)
    | rest => (false, rest)
  match integerPart? body with
  | none => none
  | some (whole, rest) =>
    let (digits, places, rest) : Nat × Nat × List Char :=
      match rest with
      | '.' :: c :: r => if c.isDigit then Double.digitRun whole 0 (c :: r) else (whole, 0, rest)
      | _ => (whole, 0, rest)
    match Double.exponentPart? rest with
    | some (e, rest') => some (.float (.ofDecimal negative digits (e - places)), rest')
    | none =>
      if places = 0 then some (.int (if negative then -(whole : Int) else whole), rest)
      else some (.float (.ofDecimal negative digits (-(places : Int))), rest)

/-! ## Strings -/

/-- The character a one-letter escape stands for. -/
def escaped? (c : Char) : Option Char :=
  if c = '"' || c = '\\' || c = '/' then some c
  else if c = 'b' then some '\x08'
  else if c = 'f' then some '\x0c'
  else if c = 'n' then some '\n'
  else if c = 'r' then some '\r'
  else if c = 't' then some '\t'
  else none

/-- The first half of a surrogate pair. -/
def isHighHalf (n : Nat) : Bool :=
  0xd800 ≤ n && n ≤ 0xdbff

/-- The second half of a surrogate pair. -/
def isLowHalf (n : Nat) : Bool :=
  0xdc00 ≤ n && n ≤ 0xdfff

/-- The character of a code unit.  A half without its partner has none, and U+FFFD stands in for it;
a text with such an escape is told by `hasLoneHalf`. -/
def unitChar (n : Nat) : Char :=
  if isHighHalf n || isLowHalf n then '\ufffd' else Char.ofNat n

/-- Whether a text has a `\u` escape of half a surrogate pair without that of the other half beside
it, `high` saying that the first half of a pair has just been passed. -/
def hasLoneHalfAfter (high : Bool) : List Char → Bool
  | '\\' :: 'u' :: a :: b :: c :: d :: rest =>
    match hexNumeral? [a, b, c, d] with
    | none => high || hasLoneHalfAfter false (a :: b :: c :: d :: rest)
    | some n =>
      if high then !isLowHalf n || hasLoneHalfAfter false rest
      else isLowHalf n || hasLoneHalfAfter (isHighHalf n) rest
  | '\\' :: _ :: rest => high || hasLoneHalfAfter false rest
  | _ :: rest => high || hasLoneHalfAfter false rest
  | [] => high

def hasLoneHalf (cs : List Char) : Bool :=
  hasLoneHalfAfter false cs

/-- The character of two halves. -/
def pairChar (high low : Nat) : Char :=
  Char.ofNat (0x10000 + (high - 0xd800) * 0x400 + (low - 0xdc00))

/-- The characters of a string up to its closing quote; `opening` is the text from the opening quote
on.  At least one character has to follow the digits of a `\u` escape. -/
def stringBody (opening : List Char) : List Char → Reading (List Char)
  | [] => .error ⟨.unterminatedString, opening⟩
  | c :: rest =>
    if c = '"' then .ok ([], rest)
    else if c.toNat ≤ 0x1f then .error ⟨.controlCharacter, c :: rest⟩
    else if c = '\\' then
      match rest with
      | [] => .error ⟨.unterminatedString, opening⟩
      | 'u' :: unit =>
        match unit with
        | a :: b :: c :: d :: e :: more =>
          match hexNumeral? [a, b, c, d] with
          | none => .error ⟨.unicodeEscape, rest⟩
          | some n =>
            let single : Unit → Reading (List Char) := fun _ =>
              match stringBody opening (e :: more) with
              | .ok (s, after) => .ok (unitChar n :: s, after)
              | .error stop => .error stop
            if isHighHalf n && e = '\\' then
              match more with
              | 'u' :: f :: g :: h :: i :: j :: later =>
                match hexNumeral? [f, g, h, i] with
                | none => .error ⟨.unicodeEscape, more⟩
                | some m =>
                  if isLowHalf m then
                    match stringBody opening (j :: later) with
                    | .ok (s, after) => .ok (pairChar n m :: s, after)
                    | .error stop => .error stop
                  else single ()
              | _ => single ()
            else single ()
        | _ => .error ⟨.unicodeEscape, rest⟩
      | letter :: more =>
        match escaped? letter with
        | none => .error ⟨.escape, c :: rest⟩
        | some x =>
          match stringBody opening more with
          | .ok (s, after) => .ok (x :: s, after)
          | .error stop => .error stop
    else
      match stringBody opening rest with
      | .ok (s, after) => .ok (c :: s, after)
      | .error stop => .error stop

/-! ## Values

`fuel` bounds the number of nested calls.  Between two of them at least every second one consumes
a character, so twice the length of the text is enough. -/

mutual

/-- A value at the front of a text without blanks before it. -/
def valueAt : Nat → List Char → Reading Json
  | 0, cs => .error ⟨.value, cs⟩
  | fuel + 1, cs =>
    match cs with
    | '"' :: rest =>
      match stringBody cs rest with
      | .ok (s, after) => .ok (.str (String.ofList s), after)
      | .error stop => .error stop
    | '\x7b' :: rest =>
      match skipGap rest with
      | '\x7d' :: after => .ok (.object [], after)
      | next => membersAt fuel [] next
    | '[' :: rest =>
      match skipGap rest with
      | ']' :: after => .ok (.array [], after)
      | next => itemsAt fuel [] next
    | _ =>
      if let some after := afterWord? "null".toList cs then .ok (.null, after)
      else if let some after := afterWord? "true".toList cs then .ok (.bool true, after)
      else if let some after := afterWord? "false".toList cs then .ok (.bool false, after)
      else if let some after := afterWord? "NaN".toList cs then .ok (.float .nan, after)
      else if let some after := afterWord? "Infinity".toList cs then
        .ok (.float (.infinite false), after)
      else if let some after := afterWord? "-Infinity".toList cs then
        .ok (.float (.infinite true), after)
      else
        match number? cs with
        | some (.int n, after) =>
          if Number.fits n then .ok (.int n, after)
          else .error ⟨.longNumeral (Number.naturalText n.natAbs).length, cs⟩
        | some result => .ok result
        | none => .error ⟨.value, cs⟩

/-- Members of an object from a key on, after the members `before`. -/
def membersAt : Nat → List (String × Json) → List Char → Reading Json
  | 0, _, cs => .error ⟨.value, cs⟩
  | fuel + 1, before, cs =>
    match cs with
    | '"' :: rest =>
      match stringBody cs rest with
      | .error stop => .error stop
      | .ok (key, afterKey) =>
        match skipGap afterKey with
        | ':' :: afterColon =>
          match valueAt fuel (skipGap afterColon) with
          | .error stop => .error stop
          | .ok (value, afterValue) =>
            let members := setMember (String.ofList key) value before
            match skipGap afterValue with
            | '\x7d' :: after => .ok (.object members, after)
            | ',' :: next => membersAt fuel members (skipGap next)
            | other => .error ⟨.comma, other⟩
        | other => .error ⟨.colon, other⟩
    | other => .error ⟨.propertyName, other⟩

/-- Items of an array from a value on, after the items `before` in reverse. -/
def itemsAt : Nat → List Json → List Char → Reading Json
  | 0, _, cs => .error ⟨.value, cs⟩
  | fuel + 1, before, cs =>
    match valueAt fuel cs with
    | .error stop => .error stop
    | .ok (value, afterValue) =>
      match skipGap afterValue with
      | ']' :: after => .ok (.array (value :: before).reverse, after)
      | ',' :: next => itemsAt fuel (value :: before) (skipGap next)
      | other => .error ⟨.comma, other⟩

end

/-- A whole text: one value with blanks around it. -/
def readChars (cs : List Char) : Except Stop Json :=
  match cs with
  | '\ufeff' :: _ => .error ⟨.byteOrderMark, cs⟩
  | _ =>
    match valueAt (2 * cs.length + 2) (skipGap cs) with
    | .error stop => .error stop
    | .ok (value, after) =>
      match skipGap after with
      | [] => .ok value
      | rest => .error ⟨.extraData, rest⟩

/-- A refused text: the cause and its place, counted in characters from zero, and in lines and
columns from one. -/
structure Fault where
  cause : Cause
  position : Nat
  line : Nat
  column : Nat
deriving DecidableEq, Repr

/-- The fault of a stop in a text: lines end with line feeds. -/
def Stop.fault (stop : Stop) (cs : List Char) : Fault :=
  let before := cs.take (cs.length - stop.remaining.length)
  ⟨stop.cause, before.length, before.count '\n' + 1,
    (before.reverse.takeWhile (· ≠ '\n')).length + 1⟩

def Fault.message (fault : Fault) : String :=
  fault.cause.text ++ ": line " ++ toString fault.line ++ " column " ++ toString fault.column ++
    " (char " ++ toString fault.position ++ ")"

def read (s : String) : Except Fault Json :=
  match readChars s.toList with
  | .ok value => .ok value
  | .error stop => .error (stop.fault s.toList)

end PageBuilder.Json
