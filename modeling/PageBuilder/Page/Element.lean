import PageBuilder.OrderedMap
import PageBuilder.Value.Basic

/-!
# Elements

An element is one placed component: its kind, its props and style attributes, its children in
order, and a back reference to its parent.
-/

namespace PageBuilder

/-- One node of a page. -/
structure Element where
  id : String
  kind : String
  props : OrderedMap Value
  style : OrderedMap Value
  children : List String
  parent : Option String
deriving DecidableEq, Repr

namespace Element

/-- Drops one line feed at the very end. -/
def withoutFinalNewline : List Char → List Char
  | [] => []
  | [c] => if c = '\n' then [] else [c]
  | c :: rest => c :: withoutFinalNewline rest

def isLowerAscii (c : Char) : Bool :=
  'a' ≤ c && c ≤ 'z'

/-- What may follow the first letter of an id. -/
def isIdChar (c : Char) : Bool :=
  isLowerAscii c || c.isDigit || c = '_'

/-- Ids are a lower case letter and up to sixty-three lower case letters, digits and underscores;
one line feed at the end is let pass. -/
def isValidId (id : String) : Bool :=
  match withoutFinalNewline id.toList with
  | [] => false
  | c :: rest => isLowerAscii c && rest.all isIdChar && rest.length ≤ 63

end Element

end PageBuilder
