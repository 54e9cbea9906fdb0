import PageBuilder.OrderedMap
import PageBuilder.Style.Vocabulary
import PageBuilder.Value.Text

/-!
# Style attributes as class tokens

Each known category of a style yields at most one token, in the order of the vocabulary, so that
equal attributes give equal class names whatever the order they were set in.  What the vocabulary
does not know yields nothing.  A hidden element yields no token of the categories that lay out
children.

A value is looked up by its text, so a style with a value that has none cannot be resolved.
-/

namespace PageBuilder.Style

/-- Whether a style hides its element. -/
def isHidden (style : OrderedMap Value) : Bool :=
  style.get? "display" = some (.str "hidden")

/-- The value that is looked up for one category of a style. -/
def consulted? (style : OrderedMap Value) (category : Category) : Option Value :=
  match style.get? category.name with
  | none => none
  | some .null => none
  | some value =>
    if isHidden style && layoutCategories.contains category.name then none else some value

/-- The token of one category of a style. -/
def token? (style : OrderedMap Value) (category : Category) : Option String :=
  (consulted? style category).bind fun value => category.tokens.lookup value.text

/-- Why a style cannot be resolved: the fault of the first value looked up that has no text. -/
def textFault? (style : OrderedMap Value) : Option TextFault :=
  categories.findSome? fun category => (consulted? style category).bind Value.textFault?

/-- The tokens of a style, if it can be resolved, in the order of the vocabulary. -/
def tokens (style : OrderedMap Value) : List String :=
  categories.filterMap (token? style)

def resolve (style : OrderedMap Value) : Except TextFault (List String) :=
  match textFault? style with
  | some fault => .error fault
  | none => .ok (tokens style)

/-- The tokens of a style as one attribute value. -/
def className (style : OrderedMap Value) : Except TextFault String :=
  Text.join " " <$> resolve style

end PageBuilder.Style
