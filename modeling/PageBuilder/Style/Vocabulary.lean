/-!
# The style vocabulary

Style attributes are semantic: a category such as `padding` with a value such as `medium`.  The
vocabulary spells each known pair as a utility class token.  Categories come in groups, and the
order of groups, of categories within a group and of values within a category is the order in
which tokens are written and values are listed.
-/

namespace PageBuilder.Style

/-- A category with its values and their tokens. -/
structure Category where
  name : String
  tokens : List (String × String)
deriving DecidableEq, Repr

/-- Categories that belong together. -/
structure Group where
  name : String
  categories : List Category
deriving DecidableEq, Repr

/-- The tokens of a scale: each step behind a common stem. -/
def scaled (stem : String) (scale : List (String × String)) : List (String × String) :=
  scale.map fun step => (step.1, stem ++ "-" ++ step.2)

def spacingScale : List (String × String) := [
  ("none", "0"), ("xsmall", "1"), ("small", "2"), ("medium", "4"), ("large", "6"),
  ("xlarge", "8")]

/-- Colors of texts and borders. -/
def strongColors : List (String × String) := [
  ("primary", "blue-600"), ("secondary", "gray-600"), ("muted", "gray-400"),
  ("accent", "indigo-500"), ("danger", "red-600"), ("success", "green-600"), ("white", "white"),
  ("black", "black"), ("transparent", "transparent")]

/-- Colors of surfaces: lighter where the color is a shade. -/
def surfaceColors : List (String × String) := [
  ("primary", "blue-600"), ("secondary", "gray-100"), ("muted", "gray-50"),
  ("accent", "indigo-500"), ("danger", "red-50"), ("success", "green-50"), ("white", "white"),
  ("black", "black"), ("transparent", "transparent")]

/-- The groups in the order of writing. -/
def vocabulary : List Group := [
  ⟨"layout", [
    ⟨"display", [
      ("block", "block"), ("inline", "inline"), ("inlineBlock", "inline-block"),
      ("flex", "flex"), ("inlineFlex", "inline-flex"), ("grid", "grid"), ("hidden", "hidden")]⟩,
    ⟨"flexDirection", [
      ("row", "flex-row"), ("rowReverse", "flex-row-reverse"), ("column", "flex-col"),
      ("columnReverse", "flex-col-reverse")]⟩,
    ⟨"justify", [
      ("start", "justify-start"), ("center", "justify-center"), ("end", "justify-end"),
      ("between", "justify-between"), ("around", "justify-around"), ("evenly", "justify-evenly")]⟩,
    ⟨"align", [
      ("start", "items-start"), ("center", "items-center"), ("end", "items-end"),
      ("baseline", "items-baseline"), ("stretch", "items-stretch")]⟩,
    ⟨"width", [
      ("auto", "w-auto"), ("full", "w-full"), ("half", "w-1/2"), ("third", "w-1/3"),
      ("quarter", "w-1/4"), ("screen", "w-screen"), ("fit", "w-fit")]⟩,
    ⟨"height", [
      ("auto", "h-auto"), ("full", "h-full"), ("screen", "h-screen"), ("fit", "h-fit")]⟩,
    ⟨"gridColumns", [
      ("1", "grid-cols-1"), ("2", "grid-cols-2"), ("3", "grid-cols-3"), ("4", "grid-cols-4"),
      ("6", "grid-cols-6"), ("12", "grid-cols-12")]⟩]⟩,
  ⟨"spacing", [
    ⟨"padding", scaled "p" spacingScale⟩,
    ⟨"paddingX", scaled "px" spacingScale⟩,
    ⟨"paddingY", scaled "py" spacingScale⟩,
    ⟨"margin", scaled "m" spacingScale⟩,
    ⟨"marginX", scaled "mx" spacingScale⟩,
    ⟨"marginY", scaled "my" spacingScale⟩,
    ⟨"gap", scaled "gap" spacingScale⟩]⟩,
  ⟨"typography", [
    ⟨"fontSize", [
      ("xsmall", "text-xs"), ("small", "text-sm"), ("base", "text-base"), ("large", "text-lg"),
      ("xlarge", "text-xl"), ("2xlarge", "text-2xl"), ("3xlarge", "text-3xl"),
      ("4xlarge", "text-4xl")]⟩,
    ⟨"fontWeight", [
      ("light", "font-light"), ("normal", "font-normal"), ("medium", "font-medium"),
      ("semibold", "font-semibold"), ("bold", "font-bold")]⟩,
    ⟨"textAlign", [
      ("left", "text-left"), ("center", "text-center"), ("right", "text-right"),
      ("justify", "text-justify")]⟩]⟩,
  ⟨"color", [
    ⟨"textColor", scaled "text" strongColors⟩,
    ⟨"background", scaled "bg" surfaceColors⟩,
    ⟨"borderColor", scaled "border" strongColors⟩]⟩,
  ⟨"effects", [
    ⟨"borderWidth", [
      ("none", "border-0"), ("thin", "border"), ("medium", "border-2"), ("thick", "border-4")]⟩,
    ⟨"borderRadius", [
      ("none", "rounded-none"), ("small", "rounded-sm"), ("medium", "rounded-md"),
      ("large", "rounded-lg"), ("xlarge", "rounded-xl"), ("full", "rounded-full")]⟩,
    ⟨"shadow", [
      ("none", "shadow-none"), ("small", "shadow-sm"), ("medium", "shadow-md"),
      ("large", "shadow-lg"), ("xlarge", "shadow-xl")]⟩,
    ⟨"opacity", [
      ("0", "opacity-0"), ("25", "opacity-25"), ("50", "opacity-50"), ("75", "opacity-75"),
      ("100", "opacity-100")]⟩]⟩]

def categories : List Category :=
  vocabulary.flatMap Group.categories

def category? (name : String) : Option Category :=
  categories.find? (·.name = name)

def isKnown (name : String) : Bool :=
  (category? name).isSome

/-- The values of a category, none for an unknown one. -/
def knownValues (name : String) : List String :=
  match category? name with
  | some category => category.tokens.map Prod.fst
  | none => []

/-- Categories that only mean something for boxes that lay out their children. -/
def layoutCategories : List String :=
  ["flexDirection", "justify", "align", "gap", "gridColumns"]

end PageBuilder.Style
