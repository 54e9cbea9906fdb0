import PageBuilder.Catalog.Basic
import PageBuilder.Json.Printer
import PageBuilder.Page.Element
import PageBuilder.Style.Resolve

/-!
# Attributes of a tag

Each prop of an element is one attribute.  A text stands between double quotes when it can stand
there as it is, else as a string literal in braces; numbers and false stand in braces, a true
value is the name alone, and a binding is its expression in braces.  A value without a text makes
no attribute.

Attributes come in one order whatever order the props were set in: structural names first, then
those of the component's default props, then the others by code points.  The class name that the
style resolves to comes last, and only if it is not empty.
-/

namespace PageBuilder.Markup

/-- Characters that cannot stand between the quotes of an attribute. -/
def needsBraces (c : Char) : Bool :=
  c.toNat ≤ 0x1f || c = '"' || c = '\\' || c = '\x7b' || c = '\x7d' || c = '&'

/-- An attribute whose value stands in braces. -/
def braced (name content : String) : String :=
  name ++ "=\x7b" ++ content ++ "\x7d"

def textAttribute (name text : String) : String :=
  if text.toList.any needsBraces then braced name (Json.literal Json.plainChar text)
  else name ++ "=\"" ++ text ++ "\""

/-- The attribute of a prop whose value has a text. -/
def attributeText (name : String) : Value → String
  | .binding e => braced name e.text
  | .bool b => if b then name else braced name "false"
  | .int n => braced name (Number.numeral n)
  | .float x => braced name x.text
  | value => textAttribute name value.text

def propAttribute (name : String) (value : Value) : Except TextFault String :=
  (fun _ => attributeText name value) <$> value.checkText

/-- Names that come before all others, in this order. -/
def structuralNames : List String :=
  ["key", "id", "name", "type"]

/-- The names of props in the order of writing, `template` being the default props of the
component. -/
def attributeOrder (props template : OrderedMap Value) : List String :=
  structuralNames.filter props.contains ++
    template.keys.filter (fun name => props.contains name && !structuralNames.contains name) ++
    (props.keys.filter fun name =>
      !structuralNames.contains name && !template.contains name).mergeSort

/-- The props of an element in the order of writing. -/
def writtenProps (component : Component) (e : Element) : List (String × Value) :=
  (attributeOrder e.props component.props).filterMap fun name =>
    (e.props.get? name).map fun value => (name, value)

def propAttributes : List (String × Value) → Except TextFault (List String)
  | [] => .ok []
  | (name, value) :: rest => do
    let first ← propAttribute name value
    let others ← propAttributes rest
    return first :: others

/-- The attributes of an element in the order of writing. -/
def attributes (component : Component) (e : Element) : Except TextFault (List String) := do
  let props ← propAttributes (writtenProps component e)
  let classes ← Style.className e.style
  return if classes.isEmpty then props else props ++ ["className=\"" ++ classes ++ "\""]

/-- A tag with its attributes, without the brackets. -/
def opening (component : Component) (e : Element) : Except TextFault String :=
  (fun attributes => Text.join " " (component.tag :: attributes)) <$> attributes component e

end PageBuilder.Markup
