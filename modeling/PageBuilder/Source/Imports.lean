import PageBuilder.Catalog.Basic
import PageBuilder.Source.Options
import PageBuilder.Text.Lines

/-!
# Import lines

Generated code imports React, then from each module the tags it uses, modules and tags in
increasing order.
-/

namespace PageBuilder.Source

/-- The module the tag of a component is imported from. -/
def moduleOf (options : Options) (component : Component) : String :=
  match component.module with
  | none => options.module
  | some name => if name.isEmpty then options.module else name

/-- Without repetitions, in increasing order. -/
def sortedSet (names : List String) : List String :=
  names.eraseDups.mergeSort

def modules (options : Options) (components : List Component) : List String :=
  sortedSet (components.map (moduleOf options))

def tagsOf (options : Options) (components : List Component) (module : String) : List String :=
  sortedSet ((components.filter fun c => moduleOf options c = module).map Component.tag)

def importLine (options : Options) (components : List Component) (module : String) : String :=
  "import \x7b " ++ Text.join ", " (tagsOf options components module) ++ " \x7d from '" ++ module ++
    "';"

/-- All import lines, and an empty line after them. -/
def importHeader (options : Options) (components : List Component) : String :=
  Text.join "\n"
    ("import React from 'react';" ::
      (modules options components).map (importLine options components)) ++ "\n\n"

end PageBuilder.Source
