import PageBuilder.Number.Double
import PageBuilder.Number.Integer

/-!
# Decimal text of doubles

`Double.text` writes the fewest digits that read back as the same number, and of those the
nearest; `DecimalStyle` says how the digits are laid out.  `digitRun` and `exponentPart?` read parts
of decimal numerals.

The writer tries one digit, two digits and so on up to seventeen, testing both neighbours of the
number on that decimal grid with the reader itself, so that whatever it writes reads back.
-/

namespace PageBuilder

open PageBuilder.Text

/-- `digits · 10 ^ exponent`. -/
structure Decimal where
  digits : Nat
  exponent : Int
deriving DecidableEq, Repr

/-- How a decimal is laid out. -/
structure DecimalStyle where
  /-- Decimal exponents of the first digit written without an exponent: from `leastPositional`
  to `mostPositional`. -/
  leastPositional : Int
  mostPositional : Int
  /-- Least number of digits of a written exponent. -/
  exponentDigits : Nat

/-- Numbers from a ten-thousandth up to sixteen digits are positional, whole ones end in `.0`, and
exponents have a sign and at least two digits. -/
def Double.style : DecimalStyle := ⟨-4, 15, 2⟩

namespace Decimal

/-- The value as a fraction of naturals. -/
def ratio (d : Decimal) : Nat × Nat :=
  match d.exponent with
  | .ofNat k => (d.digits * Nat.pow 10 k, 1)
  | .negSucc k => (d.digits, Nat.pow 10 (k + 1))

/-- Without trailing zeros; `fuel` bounds how many are dropped. -/
def stripZeros : Nat → Decimal → Decimal
  | 0, d => d
  | fuel + 1, d =>
    if d.digits ≠ 0 && d.digits % 10 = 0 then stripZeros fuel ⟨d.digits / 10, d.exponent + 1⟩
    else d

def exponentText (style : DecimalStyle) (e : Int) : List Char :=
  let digits := Number.naturalText e.natAbs
  (if e < 0 then '-' else '+') ::
    (List.replicate (style.exponentDigits - digits.length) '0' ++ digits)

def layout (style : DecimalStyle) (d : Decimal) : List Char :=
  let digits := Number.naturalText d.digits
  let lead : Int := d.exponent + digits.length - 1
  if style.leastPositional ≤ lead && lead ≤ style.mostPositional then
    if lead < 0 then
      '0' :: '.' :: (List.replicate (lead.natAbs - 1) '0' ++ digits)
    else
      let whole := lead.toNat + 1
      if digits.length ≤ whole then
        digits ++ List.replicate (whole - digits.length) '0' ++ ['.', '0']
      else
        digits.take whole ++ '.' :: digits.drop whole
  else
    match digits with
    | [] => []
    | c :: rest =>
      c :: ((if rest.isEmpty then [] else '.' :: rest) ++ 'e' :: exponentText style lead)

end Decimal

namespace Double

/-- The exact value of a finite number as a fraction. -/
def ratioOf (significand : Nat) (exponent : Int) : Nat × Nat :=
  match exponent with
  | .ofNat k => (significand * Nat.pow 2 k, 1)
  | .negSucc k => (significand, Nat.pow 2 (k + 1))

/-- The exact value of a finite number as a decimal. -/
def exactDecimal (significand : Nat) (exponent : Int) : Decimal :=
  match exponent with
  | .ofNat k => ⟨significand * Nat.pow 2 k, 0⟩
  | .negSucc k => ⟨significand * Nat.pow 5 (k + 1), -(k + 1 : Nat)⟩

/-- Whether `num / den < 10 ^ e`. -/
def belowPower (num den : Nat) : Int → Bool
  | .ofNat k => num < den * Nat.pow 10 k
  | .negSucc k => num * Nat.pow 10 (k + 1) < den

/-- The decimal exponent of the first digit of `num / den`, both positive: the least `p`, from a
bound below, such that `num / den < 10 ^ (p + 1)`; `fuel` bounds the search. -/
def leadExponent (num den : Nat) : Nat → Int → Int
  | 0, p => p
  | fuel + 1, p => if belowPower num den (p + 1) then p else leadExponent num den fuel (p + 1)

/-- The nearest decimal multiples of `10 ^ e` at or below `num / den` and above it, the nearer one
first; of two equally near ones the even one. -/
def neighbours (num den : Nat) (e : Int) : List Decimal :=
  let (n, d) : Nat × Nat :=
    match e with
    | .ofNat k => (num, den * Nat.pow 10 k)
    | .negSucc k => (num * Nat.pow 10 (k + 1), den)
  let low := n / d
  let twice := 2 * (n % d)
  if twice < d || (twice = d && low % 2 = 0) then [⟨low, e⟩, ⟨low + 1, e⟩]
  else [⟨low + 1, e⟩, ⟨low, e⟩]

/-- The decimals tried for `num / den`, fewest digits first. -/
def candidates (num den : Nat) : List Decimal :=
  let digitsBelow : Int := digitCount num
  let digitsAbove : Int := digitCount den
  let lead := leadExponent num den 3 (digitsBelow - digitsAbove - 1)
  (List.range 17).flatMap fun (n : Nat) => neighbours num den (lead - n)

/-- The decimal written for a finite number of given parts. -/
def shortest (negative : Bool) (significand : Nat) (exponent : Int) : Decimal :=
  let (num, den) := ratioOf significand exponent
  let this := ofParts negative significand exponent
  match (candidates num den).find? fun d => ofDecimal negative d.digits d.exponent == this with
  | some d => d.stripZeros 20
  | none => exactDecimal significand exponent

def text : Double → String
  | .nan => "nan"
  | .infinite negative => if negative then "-inf" else "inf"
  | .finite negative m e _ =>
    let d : Decimal := if m = 0 then ⟨0, 0⟩ else shortest negative m e
    String.ofList ((if negative then ['-'] else []) ++ d.layout style)

/-! ## Reading -/

/-- The digits at the front of a text, as a number and a count, and the rest. -/
def digitRun (acc count : Nat) : List Char → Nat × Nat × List Char
  | [] => (acc, count, [])
  | c :: rest =>
    if c.isDigit then digitRun (acc * 10 + (c.toNat - 0x30)) (count + 1) rest
    else (acc, count, c :: rest)

/-- An exponent part, `e`, an optional sign and digits; the exponent and the rest, or nothing when
the text does not go on so. -/
def exponentPart? : List Char → Option (Int × List Char)
  | c :: rest =>
    if c = 'e' || c = 'E' then
      let (negative, digits) : Bool × List Char :=
        match rest with
        | '-' :: r => (true, r)
        | '+' :: r => (false, r)
        | r => (false, r)
      let (n, count, rest') := digitRun 0 0 digits
      if count = 0 then none else some (if negative then -(n : Int) else n, rest')
    else none
  | [] => none

end Double

end PageBuilder
