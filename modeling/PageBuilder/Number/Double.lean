/-!
# Double precision numbers

The values of the 64-bit binary format, held exactly: a finite one is a sign and
`significand · 2 ^ exponent` in the one form where the significand has 53 bits or the exponent is
the least.  Equality is equality of values, with the two zeros apart and one `nan`.
-/

namespace PageBuilder

/-- The form each finite value has exactly once (for each sign). -/
def Double.IsCanonical (significand : Nat) (exponent : Int) : Prop :=
  significand < Nat.pow 2 53 ∧ -1074 ≤ exponent ∧ exponent ≤ 971 ∧
    (Nat.pow 2 52 ≤ significand ∨ exponent = -1074)

instance (m : Nat) (e : Int) : Decidable (Double.IsCanonical m e) := by
  unfold Double.IsCanonical; infer_instance

/-- A double precision number. -/
inductive Double
  | nan
  | infinite (negative : Bool)
  | finite (negative : Bool) (significand : Nat) (exponent : Int)
      (canonical : Double.IsCanonical significand exponent)
deriving DecidableEq, Repr

namespace Double

def zero (negative : Bool) : Double :=
  .finite negative 0 (-1074) (by decide)

instance : Inhabited Double := ⟨zero false⟩

def isFinite : Double → Bool
  | .finite .. => true
  | _ => false

/-- The quotient rounded to an integer, halves to the even neighbour. -/
def roundDiv (num den : Nat) : Nat :=
  let q := num / den
  let twice := 2 * (num % den)
  if twice < den then q
  else if den < twice then q + 1
  else if q % 2 = 0 then q else q + 1

/-- The value of given significand and exponent: infinite when it is out of range. -/
def ofParts (negative : Bool) (significand : Nat) (exponent : Int) : Double :=
  if h : IsCanonical significand exponent then .finite negative significand exponent h
  else .infinite negative

/-- `num / 2 ^ e / den` rounded to an integer. -/
def scaledRound (num den : Nat) (e : Int) : Nat :=
  match e with
  | .ofNat k => roundDiv num (den * Nat.pow 2 k)
  | .negSucc k => roundDiv (num * Nat.pow 2 (k + 1)) den

/-- The exponent of the last bit of the double nearest to `num / den`: the one that leaves 53 bits
before the point, but never below the least exponent. -/
def lastBit (num den : Nat) : Int :=
  let guess : Int := (Nat.log2 num : Int) - (Nat.log2 den : Int) - 52
  let fits : Bool :=
    match guess with
    | .ofNat k => den * Nat.pow 2 k * Nat.pow 2 52 ≤ num
    | .negSucc k => den * Nat.pow 2 52 ≤ num * Nat.pow 2 (k + 1)
  max (if fits then guess else guess - 1) (-1074)

/-- The double nearest to a fraction, halves to the even significand. -/
def ofRatio (negative : Bool) (num den : Nat) : Double :=
  if num = 0 then zero negative
  else
    let e := lastBit num den
    let m := scaledRound num den e
    if m = Nat.pow 2 53 then ofParts negative (Nat.pow 2 52) (e + 1) else ofParts negative m e

/-- How many decimal digits a number has. -/
def digitCount (n : Nat) : Nat :=
  (Nat.toDigits 10 n).length

/-- The double nearest to `digits · 10 ^ exponent`.  Beyond the powers tested first every decimal
is infinite or zero, so no power of ten is ever larger than the double format needs. -/
def ofDecimal (negative : Bool) (digits : Nat) (exponent : Int) : Double :=
  if digits = 0 then zero negative
  else
    let magnitude : Int := digitCount digits + exponent
    if 310 < magnitude then .infinite negative
    else if magnitude < -330 then zero negative
    else
      match exponent with
      | .ofNat k => ofRatio negative (digits * Nat.pow 10 k) 1
      | .negSucc k => ofRatio negative digits (Nat.pow 10 (k + 1))

/-- `m * 2 ^ e` without its fractional part. -/
def wholePart (m : Nat) : Int → Nat
  | .ofNat k => m * Nat.pow 2 k
  | .negSucc k => m / Nat.pow 2 (k + 1)

/-- Whether `m * 2 ^ e` has no fractional part. -/
def isWhole (m : Nat) : Int → Bool
  | .ofNat _ => true
  | .negSucc k => m % Nat.pow 2 (k + 1) = 0

/-- The integer part, toward zero, of a finite number. -/
def truncate? : Double → Option Int
  | .finite negative m e _ =>
    some (if negative then -(wholePart m e : Int) else wholePart m e)
  | _ => none

/-- Whether a number is finite and has no fractional part. -/
def isIntegral : Double → Bool
  | .finite _ m e _ => isWhole m e
  | _ => false

end Double

end PageBuilder
