import PageBuilder.Json.Reader
import PageBuilder.Page.Attributes
import PageBuilder.Page.Problem

/-!
# Faults of a saved document

Reading a document passes four gates, and each has its faults: the text is JSON, the JSON has the
shape of a document, ids and props are ones a page can have, and the elements form a tree.
-/

namespace PageBuilder

/-- The records a document is made of. -/
inductive Record
  | snapshot
  | element
  | viewport
deriving DecidableEq, Repr

def Record.title : Record → String
  | .snapshot => "SnapshotDocument"
  | .element => "ElementDocument"
  | .viewport => "ViewportDocument"

/-- Why a part of a document has the wrong shape. -/
inductive ShapeFault
  | version
  | string
  | emptyString
  | dictionary
  | record (record : Record)
  | list
  | required
  | extra
  | viewportName
  | integer
  | integerFraction
  | integerInfinite
  | integerTooLarge
  | integerText
  | below (least : Int)
  | above (greatest : Int)
deriving DecidableEq, Repr

def ShapeFault.message : ShapeFault → String
  | .version => "Input should be 1"
  | .string => "Input should be a valid string"
  | .emptyString => "String should have at least 1 character"
  | .dictionary => "Input should be a valid dictionary"
  | .record r => "Input should be a valid dictionary or instance of " ++ r.title
  | .list => "Input should be a valid list"
  | .required => "Field required"
  | .extra => "Extra inputs are not permitted"
  | .viewportName => "Input should be 'desktop', 'tablet' or 'mobile'"
  | .integer => "Input should be a valid integer"
  | .integerFraction => "Input should be a valid integer, got a number with a fractional part"
  | .integerInfinite => "Input should be a finite number"
  | .integerTooLarge => "Unable to parse input string as an integer, exceeded maximum size"
  | .integerText => "Input should be a valid integer, unable to parse string as an integer"
  | .below least => "Input should be greater than or equal to " ++ Number.numeral least
  | .above greatest => "Input should be less than or equal to " ++ Number.numeral greatest

/-- Why a document is refused. -/
inductive DocumentFault
  | text (fault : Json.Fault)
  | noObject
  /-- The first fault of shape, and how many more there are. -/
  | shape (first : ShapeFault) (more : Nat)
  | badId (id : String)
  | foreignObject (element name : String)
  | unsupportedProp (element name : String) (value : Value)
  | prop (element : String) (fault : PropFault)
  /-- Violated rules of structure, then refused props with their elements. -/
  | inconsistent (problems : List Problem) (props : List (String × PropFault))
deriving DecidableEq, Repr

def propProblem (element : String) (fault : PropFault) : String :=
  "'" ++ element ++ "': " ++ fault.message

def DocumentFault.message : DocumentFault → String
  | .text fault => "not valid JSON: " ++ fault.message
  | .noObject => "document must be a JSON object"
  | .shape first more =>
    "invalid document: " ++ toString (more + 1) ++ " error(s): " ++ first.message
  | .badId id => "invalid element id " ++ Text.quote id
  | .foreignObject element name =>
    "'" ++ element ++ "' prop '" ++ name ++ "' is an object but not a binding"
  | .unsupportedProp element name value =>
    "'" ++ element ++ "' prop '" ++ name ++ "' has unsupported value " ++ value.quoted
  | .prop element fault => propProblem element fault
  | .inconsistent problems props =>
    Text.join "; " (problems.map Problem.message ++ props.map fun p => propProblem p.1 p.2)

end PageBuilder
