import PageBuilder.Failure

/-!
# Sources of element ids

A source hands out a stem followed by a counter that never goes back, until the counter has too
many digits to be written.  Advancing it past ids that are already in use keeps later ids distinct
from them: an id counts if it is the stem followed by digits, of whatever script.
-/

namespace PageBuilder

/-- The next number to hand out, and what ids begin with. -/
structure IdSource where
  next : Int := 1
  stem : String := "el_"
deriving DecidableEq, Repr

namespace IdSource

def idOf (source : IdSource) (n : Int) : String :=
  source.stem ++ Number.numeral n

/-- The next id, and the source after it. -/
def draw (source : IdSource) : String × IdSource :=
  (source.idOf source.next, { source with next := source.next + 1 })

/-- The next ids, and the source after them. -/
def drawMany : Nat → IdSource → List String × IdSource
  | 0, source => ([], source)
  | n + 1, source =>
    let (id, source) := source.draw
    let (ids, source) := drawMany n source
    (id :: ids, source)

/-- The source after some draws from which there is no next id, as its number has too many digits,
if a number of draws comes to that. -/
def exhausted? : Nat → IdSource → Option IdSource
  | 0, _ => none
  | n + 1, source =>
    if Number.fits source.next then exhausted? n source.draw.2 else some source

/-- What follows the stem in an id that begins with it. -/
def afterStem? (source : IdSource) (id : String) : Option String :=
  (Json.afterWord? source.stem.toList id.toList).map String.ofList

/-- The number of an id that is the stem followed by digits; a failure if the digits look like
digits but make no numeral, or one that is too long. -/
def number? (source : IdSource) (id : String) : Except Failure (Option Int) :=
  match source.afterStem? id with
  | none => .ok none
  | some digits =>
    if Text.isDigitLikeText digits then
      match Number.readInteger digits with
      | .ok n => .ok (some n)
      | .error fault => .error (.ofNumeral digits fault)
    else .ok none

/-- Moves a source past an id. -/
def pass (source : IdSource) (number : Option Int) : IdSource :=
  match number with
  | none => source
  | some n => { source with next := max source.next (n + 1) }

/-- Moves a source past ids in order, up to the first one that fails. -/
def advancePast : List String → EStateM Failure IdSource Unit
  | [], source => .ok () source
  | id :: rest, source =>
    match source.number? id with
    | .error failure => .error failure source
    | .ok number => advancePast rest (source.pass number)

/-- No id goes back. -/
theorem next_le_pass (source : IdSource) (number : Option Int) :
    source.next ≤ (source.pass number).next := by
  cases number with
  | none => exact Int.le_refl _
  | some n => exact Int.le_max_left _ _

end IdSource

end PageBuilder
