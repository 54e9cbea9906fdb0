import PageBuilder.Failure

/-!
# Options of generated code
-/

namespace PageBuilder.Source

/-- What can be chosen about generated code. -/
structure Options where
  /-- `tsx` writes types, `jsx` does not. -/
  dialect : String := "tsx"
  /-- Free text from which the component's name is made. -/
  name : String := "GeneratedComponent"
  /-- Spaces per level; none for a negative number. -/
  indent : Int := 2
  imports : Bool := true
  /-- Where tags are imported from unless their component says otherwise. -/
  module : String := "@/components/ui"
deriving DecidableEq, Repr

/-- Refuses a dialect that is not known. -/
def Options.checkDialect (options : Options) : Except Failure Unit :=
  if Failure.dialectNames.contains options.dialect then .ok ()
  else .error (.unknownDialect options.dialect)

/-- One level of indentation.  A width that is no 64-bit number is refused. -/
def Options.unit (options : Options) : Except Failure String :=
  if options.indent < -(Nat.pow 2 63 : Int) || (Nat.pow 2 63 : Int) ≤ options.indent then
    .error .indentTooWide
  else .ok (String.ofList (List.replicate options.indent.toNat ' '))

/-- The name used when nothing else is left. -/
def fallbackName : String := "Component"

/-- A letter or digit of ASCII. -/
def isNameChar (c : Char) : Bool :=
  c.isAlpha || c.isDigit

/-- A component name out of free text: its ASCII letters and digits, the first letter a capital;
the fallback name when nothing is left, and before a digit. -/
def componentName (text : String) : String :=
  match text.toList.filter isNameChar with
  | [] => fallbackName
  | c :: rest =>
    if c.isDigit then fallbackName ++ String.ofList (c :: rest)
    else String.ofList (c.toUpper :: rest)

end PageBuilder.Source
