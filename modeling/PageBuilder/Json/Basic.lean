import PageBuilder.Number.Double

/-!
# JSON values

Integers of any size and doubles are told apart; an object lists its members in order, each key
once.
-/

namespace PageBuilder

inductive Json
  | null
  | bool (b : Bool)
  | int (n : Int)
  | float (x : Double)
  | str (s : String)
  | array (items : List Json)
  | object (members : List (String × Json))
deriving Repr, Inhabited

namespace Json

/-! ## Equality is decidable -/

mutual

def decEq : (a b : Json) → Decidable (a = b)
  | .null, b => by
    cases b
    case null => exact isTrue rfl
    all_goals exact isFalse (by simp)
  | .bool x, b => by
    cases b
    case bool y => exact decidable_of_iff (x = y) (by simp)
    all_goals exact isFalse (by simp)
  | .int x, b => by
    cases b
    case int y => exact decidable_of_iff (x = y) (by simp)
    all_goals exact isFalse (by simp)
  | .float x, b => by
    cases b
    case float y => exact decidable_of_iff (x = y) (by simp)
    all_goals exact isFalse (by simp)
  | .str x, b => by
    cases b
    case str y => exact decidable_of_iff (x = y) (by simp)
    all_goals exact isFalse (by simp)
  | .array xs, b => by
    cases b
    case array ys =>
      have := decEqItems xs ys
      exact decidable_of_iff (xs = ys) (by simp)
    all_goals exact isFalse (by simp)
  | .object xs, b => by
    cases b
    case object ys =>
      have := decEqMembers xs ys
      exact decidable_of_iff (xs = ys) (by simp)
    all_goals exact isFalse (by simp)

def decEqItems : (as bs : List Json) → Decidable (as = bs)
  | [], [] => isTrue rfl
  | [], _ :: _ => isFalse (by simp)
  | _ :: _, [] => isFalse (by simp)
  | a :: as, b :: bs =>
    have := decEq a b
    have := decEqItems as bs
    decidable_of_iff (a = b ∧ as = bs) (by simp)

def decEqMembers : (as bs : List (String × Json)) → Decidable (as = bs)
  | [], [] => isTrue rfl
  | [], _ :: _ => isFalse (by simp)
  | _ :: _, [] => isFalse (by simp)
  | (k, a) :: as, (l, b) :: bs =>
    have := decEq a b
    have := decEqMembers as bs
    decidable_of_iff (k = l ∧ a = b ∧ as = bs) (by simp [Prod.ext_iff, and_assoc])

end

instance : DecidableEq Json := decEq

/-! ## Members -/

/-- Sets a member: in its old place when the key is there, else at the end. -/
def setMember (key : String) (value : Json) : List (String × Json) → List (String × Json)
  | [] => [(key, value)]
  | (k, v) :: rest => if k = key then (key, value) :: rest else (k, v) :: setMember key value rest

end Json

end PageBuilder
