import PageBuilder.Markup.Lines
import PageBuilder.Snapshot
import PageBuilder.Source.Imports

/-!
# Generated code

`generate` writes a whole source file with one exported function that returns the markup of the
page; `generateMarkup` writes the markup alone.  Both depend on nothing but the page, the options
and the catalog; an empty catalog is replaced by the built-in one.
-/

namespace PageBuilder

/-- A generated source file, and the name of the component it exports. -/
structure Source where
  text : String
  name : String
deriving DecidableEq, Repr

namespace Source

/-- What the exported function is said to return, in the dialect with types. -/
def returnType (page : Page) : String :=
  if page.isEmpty then "null" else "React.JSX.Element"

/-- The first line of the exported function, without the opening brace. -/
def signature (options : Options) (page : Page) (name : String) : String :=
  "export default function " ++ name ++
    if options.dialect = "tsx" then "(): " ++ returnType page else "()"

/-- The lines inside the exported function. -/
def bodyLines (page : Page) (known : OrderedMap Component) (unit : String) :
    Except Failure (List String) :=
  match page.root with
  | none => .ok [unit ++ "return null;"]
  | some root =>
    (fun lines => (unit ++ "return (") :: lines ++ [unit ++ ");"]) <$>
      Markup.linesFrom page known unit 2 root

/-- A source file before its layout is tidied. -/
def assemble (header signature body : String) : String :=
  header ++ signature ++ " \x7b\n" ++ body ++ "\n\x7d\n"

/-- The source file of a snapshot. -/
def generate (snapshot : Snapshot) (options : Options) (catalog : Catalog) :
    Except Failure Source := do
  options.checkDialect
  let known ← Markup.components catalog.orBuiltIn snapshot.page
  let unit ← options.unit
  let body ← bodyLines snapshot.page known unit
  let name := componentName options.name
  let header := if options.imports then importHeader options known.values else ""
  return ⟨Text.tidy (assemble header (signature options snapshot.page name)
    (Text.join "\n" body)), name⟩

/-- The markup of a snapshot, from the first column on; nothing for an empty page. -/
def generateMarkup (snapshot : Snapshot) (options : Options) (catalog : Catalog) :
    Except Failure String := do
  let known ← Markup.components catalog.orBuiltIn snapshot.page
  match snapshot.page.root with
  | none => return ""
  | some root =>
    let unit ← options.unit
    let lines ← Markup.linesFrom snapshot.page known unit 0 root
    return Text.tidy (Text.join "\n" lines)

end Source

end PageBuilder
