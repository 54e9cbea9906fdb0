import PageBuilder.Text.Blank
import PageBuilder.Text.Digit

/-!
# Integer texts

A text denotes an integer when, without the white space around it, it is an optional sign
followed by decimal digits of any script, between which single underscores may stand.  The numeral
of an integer is an optional minus sign and digits without leading zeros.

Neither way are more than `digitLimit` digits gone through: the text of a longer integer is not to
be had, and a text that begins with more digits is not read.
-/

namespace PageBuilder.Number

open PageBuilder.Text

/-- Digits after a first one, single underscores allowed between them. -/
def digitsAfter (acc : Nat) : List Char → Option Nat
  | [] => some acc
  | '_' :: c :: rest => (decimalValue? c).bind fun d => digitsAfter (acc * 10 + d) rest
  | c :: rest => (decimalValue? c).bind fun d => digitsAfter (acc * 10 + d) rest

/-- A numeral without sign. -/
def natural? : List Char → Option Nat
  | [] => none
  | c :: rest => (decimalValue? c).bind fun d => digitsAfter d rest

/-- The integer that a text denotes, of however many digits. -/
def integer? (s : String) : Option Int :=
  match trimWhile isSpace s.toList with
  | '+' :: rest => (natural? rest).map Int.ofNat
  | '-' :: rest => (natural? rest).map fun n => -(n : Int)
  | rest => (natural? rest).map Int.ofNat

def naturalText (n : Nat) : List Char :=
  Nat.toDigits 10 n

/-- The numeral of an integer, of however many digits. -/
def numeral : Int → String
  | .ofNat n => String.ofList (naturalText n)
  | .negSucc n => String.ofList ('-' :: naturalText (n + 1))

/-! ## The limit on digits -/

/-- The most digits an integer has that is turned into text, or a numeral that is read. -/
def digitLimit : Nat := 4300

/-- Whether an integer has few enough digits to be turned into text. -/
def fits (n : Int) : Bool :=
  (naturalText n.natAbs).length ≤ digitLimit

/-- What follows the sign of a numeral. -/
def unsigned : List Char → List Char
  | '+' :: rest => rest
  | '-' :: rest => rest
  | cs => cs

/-- The number of digits that follow a first one, single underscores allowed between them; nothing
if an underscore has no digit after it. -/
def digitCountAfter : List Char → Option Nat
  | '_' :: c :: rest =>
    if (decimalValue? c).isSome then (· + 1) <$> digitCountAfter rest else none
  | ['_'] => none
  | c :: rest => if (decimalValue? c).isSome then (· + 1) <$> digitCountAfter rest else some 0
  | [] => some 0

/-- The number of digits a text begins with, whatever follows them. -/
def leadingDigits : List Char → Nat
  | c :: rest => if (decimalValue? c).isSome then ((· + 1) <$> digitCountAfter rest).getD 0 else 0
  | [] => 0

/-- The number of digits of a text after white space and a sign. -/
def numeralDigits (s : String) : Nat :=
  leadingDigits (unsigned (trimWhile isSpace s.toList))

/-- Why a text is not read as an integer. -/
inductive NumeralFault
  | malformed
  | tooLong (digits : Nat)
deriving DecidableEq, Repr

/-- Reads a text as an integer.  Too many digits are refused before what follows them is looked
at. -/
def readInteger (s : String) : Except NumeralFault Int :=
  if digitLimit < numeralDigits s then .error (.tooLong (numeralDigits s))
  else
    match integer? s with
    | some n => .ok n
    | none => .error .malformed

end PageBuilder.Number
