import PageBuilder.Catalog.Basic

/-!
# The built-in catalog

The components every page can use without further registration.
-/

namespace PageBuilder.Catalog

/-- A style of text values. -/
def styles (pairs : List (String × String)) : OrderedMap Value :=
  .ofList (pairs.map fun p => (p.1, .str p.2))

/-- The style attributes all buttons share. -/
def buttonStyle : List (String × String) := [
  ("display", "inlineFlex"), ("align", "center"), ("justify", "center"),
  ("paddingX", "medium"), ("paddingY", "small"), ("fontSize", "small"),
  ("fontWeight", "medium"), ("borderRadius", "medium")]

def builtInComponents : List Component := [
  { kind := "container", tag := "Container", name := "Container", shelf := "layout",
    container := true,
    style := styles [
      ("width", "full")] },
  { kind := "flex-row", tag := "FlexRow", name := "Flex Row", shelf := "layout", container := true,
    style := styles [
      ("display", "flex"), ("flexDirection", "row"), ("gap", "medium")] },
  { kind := "grid-2-col", tag := "Grid", name := "2 Column Grid", shelf := "layout",
    container := true,
    props := .ofList [
      ("columns", .int 2)],
    style := styles [
      ("display", "grid"), ("gridColumns", "2"), ("gap", "large")] },
  { kind := "grid-3-col", tag := "Grid", name := "3 Column Grid", shelf := "layout",
    container := true,
    props := .ofList [
      ("columns", .int 3)],
    style := styles [
      ("display", "grid"), ("gridColumns", "3"), ("gap", "large")] },
  { kind := "divider", tag := "Divider", name := "Divider", shelf := "layout",
    style := styles [
      ("marginY", "medium")] },
  { kind := "spacer", tag := "Spacer", name := "Spacer", shelf := "layout",
    props := .ofList [
      ("size", .str "md")] },
  { kind := "heading", tag := "Heading", name := "Heading", shelf := "text",
    props := .ofList [
      ("text", .str "Heading Text"), ("level", .str "h2")],
    style := styles [
      ("fontSize", "3xlarge"), ("fontWeight", "bold")] },
  { kind := "paragraph", tag := "Paragraph", name := "Paragraph", shelf := "text",
    props := .ofList [
      ("text", .str "This is a paragraph of text. Add your content here.")],
    style := styles [
      ("fontSize", "base"), ("textColor", "secondary")] },
  { kind := "text", tag := "Text", name := "Text", shelf := "text",
    props := .ofList [
      ("text", .str "Text")] },
  { kind := "badge", tag := "Badge", name := "Badge", shelf := "text",
    props := .ofList [
      ("text", .str "Badge"), ("variant", .str "primary")],
    style := styles [
      ("paddingX", "small"), ("fontSize", "xsmall"), ("borderRadius", "full")] },
  { kind := "link", tag := "Link", name := "Link", shelf := "text",
    props := .ofList [
      ("text", .str "Click here"), ("href", .str "#")] },
  { kind := "list", tag := "List", name := "List", shelf := "text",
    props := .ofList [
      ("ordered", .bool false)] },
  { kind := "primary-button", tag := "Button", name := "Primary Button", shelf := "buttons",
    props := .ofList [
      ("text", .str "Button"), ("href", .str ""), ("variant", .str "primary")],
    style := styles (buttonStyle ++ [
      ("background", "primary"), ("textColor", "white")]) },
  { kind := "secondary-button", tag := "Button", name := "Secondary Button", shelf := "buttons",
    props := .ofList [
      ("text", .str "Button"), ("href", .str ""), ("variant", .str "secondary")],
    style := styles (buttonStyle ++ [
      ("background", "secondary")]) },
  { kind := "outline-button", tag := "Button", name := "Outline Button", shelf := "buttons",
    props := .ofList [
      ("text", .str "Button"), ("href", .str ""), ("variant", .str "outline")],
    style := styles (buttonStyle ++ [
      ("borderWidth", "thin"), ("borderColor", "primary"), ("textColor", "primary")]) },
  { kind := "button-group", tag := "ButtonGroup", name := "Button Group", shelf := "buttons",
    container := true,
    style := styles [
      ("display", "inlineFlex"), ("gap", "small")] },
  { kind := "simple-card", tag := "Card", name := "Simple Card", shelf := "cards",
    container := true,
    props := .ofList [
      ("title", .str "Card Title"), ("description", .str "Card description goes here.")],
    style := styles [
      ("padding", "large"), ("background", "white"), ("borderRadius", "large"),
      ("shadow", "medium")] },
  { kind := "input-field", tag := "InputField", name := "Input Field", shelf := "forms",
    props := .ofList [
      ("label", .str "Label"), ("placeholder", .str "Enter text..."), ("helperText", .str "")] },
  { kind := "checkbox", tag := "Checkbox", name := "Checkbox", shelf := "forms",
    props := .ofList [
      ("label", .str "Check this box"), ("checked", .bool false)] },
  { kind := "image", tag := "Image", name := "Image", shelf := "media",
    props := .ofList [
      ("src", .str "https://placehold.co/600x400"), ("alt", .str "Placeholder image")],
    style := styles [
      ("width", "full"), ("borderRadius", "medium")] },
  { kind := "avatar", tag := "Avatar", name := "Avatar", shelf := "media",
    props := .ofList [
      ("src", .str "https://placehold.co/96x96"), ("alt", .str "Avatar")],
    style := styles [
      ("borderRadius", "full")] },
  { kind := "navbar", tag := "Navbar", name := "Navbar", shelf := "navigation", container := true,
    props := .ofList [
      ("brand", .str "Brand")],
    style := styles [
      ("display", "flex"), ("justify", "between"), ("align", "center"),
      ("paddingX", "large"), ("paddingY", "medium")] },
  { kind := "footer", tag := "Footer", name := "Footer", shelf := "navigation", container := true,
    props := .ofList [
      ("copyright", .str "© 2024 Company. All rights reserved.")],
    style := styles [
      ("paddingY", "xlarge"), ("background", "secondary")] },
  { kind := "hero-section", tag := "HeroSection", name := "Hero Section", shelf := "sections",
    container := true,
    props := .ofList [
      ("title", .str "Build something great"), ("subtitle", .str "Start with a blank canvas.")],
    style := styles [
      ("paddingY", "xlarge"), ("textAlign", "center")] }]

def builtIn : Catalog :=
  builtInComponents.foldl (fun catalog component => catalog.add component) empty

/-- The built-in catalog in the place of an empty one. -/
def orBuiltIn (catalog : Catalog) : Catalog :=
  if catalog.components.isEmpty then builtIn else catalog

theorem orBuiltIn_eq {catalog : Catalog} (h : catalog.components.isEmpty = false) :
    catalog.orBuiltIn = catalog := by
  rw [orBuiltIn, h]
  rfl

@[simp] theorem orBuiltIn_orBuiltIn (catalog : Catalog) :
    catalog.orBuiltIn.orBuiltIn = catalog.orBuiltIn := by
  apply orBuiltIn_eq
  unfold orBuiltIn
  split
  · rfl
  · rename_i h
    simpa using h

end PageBuilder.Catalog
