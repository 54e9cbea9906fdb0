import PageBuilder.Json.Basic

/-!
# Values of props, style attributes and viewport settings

A value is a literal, a binding to an expression of the generated code, or a list or object.  Only
literals and bindings can stand in a page that is saved; the others occur in data that has not
been checked yet and in the defaults a component may carry.  What is nested too deeply to be gone
through is a value of its own, as nothing more can be found out about it.
-/

namespace PageBuilder

inductive Value
  | null
  | bool (b : Bool)
  | int (n : Int)
  | float (x : Double)
  | str (s : String)
  /-- Bound to an expression, which is a text in every page that can be saved. -/
  | binding (expression : Value)
  | list (items : List Value)
  /-- Fields in order, each key once. -/
  | dict (fields : List (String × Value))
  /-- A list, object or binding nested more deeply than can be gone through. -/
  | tooDeep
deriving Repr, Inhabited

namespace Value

/-! ## Equality is decidable -/

mutual

def decEq : (a b : Value) → Decidable (a = b)
  | .null, b => by
    cases b
    case null => exact isTrue rfl
    all_goals exact isFalse (by simp)
  | .bool x, b => by
    cases b
    case bool y => exact decidable_of_iff (x = y) (by simp)
    all_goals exact isFalse (by simp)
  | .int x, b => by
    cases b
    case int y => exact decidable_of_iff (x = y) (by simp)
    all_goals exact isFalse (by simp)
  | .float x, b => by
    cases b
    case float y => exact decidable_of_iff (x = y) (by simp)
    all_goals exact isFalse (by simp)
  | .str x, b => by
    cases b
    case str y => exact decidable_of_iff (x = y) (by simp)
    all_goals exact isFalse (by simp)
  | .binding x, b => by
    cases b
    case binding y =>
      have := decEq x y
      exact decidable_of_iff (x = y) (by simp)
    all_goals exact isFalse (by simp)
  | .list xs, b => by
    cases b
    case list ys =>
      have := decEqItems xs ys
      exact decidable_of_iff (xs = ys) (by simp)
    all_goals exact isFalse (by simp)
  | .dict xs, b => by
    cases b
    case dict ys =>
      have := decEqFields xs ys
      exact decidable_of_iff (xs = ys) (by simp)
    all_goals exact isFalse (by simp)
  | .tooDeep, b => by
    cases b
    case tooDeep => exact isTrue rfl
    all_goals exact isFalse (by simp)

def decEqItems : (as bs : List Value) → Decidable (as = bs)
  | [], [] => isTrue rfl
  | [], _ :: _ => isFalse (by simp)
  | _ :: _, [] => isFalse (by simp)
  | a :: as, b :: bs =>
    have := decEq a b
    have := decEqItems as bs
    decidable_of_iff (a = b ∧ as = bs) (by simp)

def decEqFields : (as bs : List (String × Value)) → Decidable (as = bs)
  | [], [] => isTrue rfl
  | [], _ :: _ => isFalse (by simp)
  | _ :: _, [] => isFalse (by simp)
  | (k, a) :: as, (l, b) :: bs =>
    have := decEq a b
    have := decEqFields as bs
    decidable_of_iff (k = l ∧ a = b ∧ as = bs) (by simp [Prod.ext_iff, and_assoc])

end

instance : DecidableEq Value := decEq

/-- Whether a value is the deletion mark of a partial update. -/
def isNull : Value → Bool
  | .null => true
  | _ => false

/-! ## Values and JSON -/

mutual

/-- The value of a JSON value. -/
def ofJson : Json → Value
  | .null => .null
  | .bool b => .bool b
  | .int n => .int n
  | .float x => .float x
  | .str s => .str s
  | .array items => .list (ofJsonItems items)
  | .object members => .dict (ofJsonMembers members)

def ofJsonItems : List Json → List Value
  | [] => []
  | item :: rest => ofJson item :: ofJsonItems rest

def ofJsonMembers : List (String × Json) → List (String × Value)
  | [] => []
  | (key, value) :: rest => (key, ofJson value) :: ofJsonMembers rest

end

mutual

/-- The JSON value of a value that holds no binding and can be gone through. -/
def toJson? : Value → Option Json
  | .null => some .null
  | .bool b => some (.bool b)
  | .int n => some (.int n)
  | .float x => some (.float x)
  | .str s => some (.str s)
  | .binding _ => none
  | .list items => (itemsToJson? items).map .array
  | .dict fields => (fieldsToJson? fields).map .object
  | .tooDeep => none

def itemsToJson? : List Value → Option (List Json)
  | [] => some []
  | item :: rest => do
    let j ← toJson? item
    let js ← itemsToJson? rest
    return j :: js

def fieldsToJson? : List (String × Value) → Option (List (String × Json))
  | [] => some []
  | (key, value) :: rest => do
    let j ← toJson? value
    let js ← fieldsToJson? rest
    return (key, j) :: js

end

end Value

end PageBuilder
