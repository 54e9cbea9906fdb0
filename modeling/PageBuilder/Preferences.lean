import PageBuilder.Source.Options
import PageBuilder.Number.Integer
import PageBuilder.Text.Uppercase

/-!
# Preferences

What the environment says about code generation and sessions.  Every preference has a default,
and one that makes no sense is passed over in favour of it.
-/

namespace PageBuilder

/-- What the environment says. -/
structure Preferences where
  dialect : String := "tsx"
  /-- Free text from which the component's name is made. -/
  name : String := "GeneratedComponent"
  indent : Int := 2
  /-- Where tags are imported from. -/
  module : String := "@/components/ui"
  /-- The greatest number of entries in a timeline; none if it is not positive. -/
  historyLimit : Int := 0
  logLevel : String := "WARNING"
deriving DecidableEq, Repr

namespace Preferences

/-- An integer from the environment: the default when it is not set, empty or cannot be read. -/
def integerOr (default : Int) (raw : Option String) : Int :=
  (raw.bind fun text => (Number.readInteger text).toOption).getD default

/-- The preferences an environment holds; `read` gives the text of a variable that is set. -/
def ofEnvironment (read : String → Option String) : Preferences where
  dialect := (read "COMPOSER_DIALECT").getD "tsx"
  name := (read "COMPOSER_COMPONENT_NAME").getD "GeneratedComponent"
  indent := integerOr 2 (read "COMPOSER_INDENT_WIDTH")
  module := (read "COMPOSER_IMPORT_MODULE").getD "@/components/ui"
  historyLimit := integerOr 0 (read "COMPOSER_HISTORY_LIMIT")
  logLevel := Text.uppercase ((read "COMPOSER_LOG_LEVEL").getD "WARNING")

def timelineLimit (preferences : Preferences) : Option Int :=
  if 0 < preferences.historyLimit then some preferences.historyLimit else none

/-- Options named for one call; those left out come from the preferences. -/
structure Overrides where
  dialect : Option String := none
  name : Option String := none
  indent : Option Int := none
  imports : Option Bool := none
  module : Option String := none
deriving DecidableEq, Repr

/-- The options of generated code.  Preferences that cannot be used are passed over; overrides
are taken as they are. -/
def options (preferences : Preferences) (overrides : Overrides) : Source.Options where
  dialect := overrides.dialect.getD
    (if Failure.dialectNames.contains preferences.dialect then preferences.dialect else "tsx")
  name := overrides.name.getD preferences.name
  indent := overrides.indent.getD (if 0 < preferences.indent then preferences.indent else 2)
  imports := overrides.imports.getD true
  module := overrides.module.getD preferences.module

end Preferences

end PageBuilder
