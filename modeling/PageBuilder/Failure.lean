import PageBuilder.Archive.Fault

/-!
# Rejections and failures

A rejection is a decision of this library: the input breaks one of its rules.  Every rejection
belongs to a family with a stable code, so that callers can branch on it without reading the
message.  A failure is anything that can end an operation: a rejection, a refused argument, or a
look-up that data which never passed the checks can make go wrong.
-/

namespace PageBuilder

/-- Families of rejections. -/
inductive Family
  | general
  | edit
  | invalidParent
  | invalidTarget
  | cycle
  | rootProtected
  | elementNotFound
  | invalidProp
  | unknownStyle
  | generation
  | unknownKind
  | document
deriving DecidableEq, Repr

namespace Family

/-- The stable code of a family. -/
def code : Family → String
  | .general => "COMPOSER_ERROR"
  | .edit => "TREE_ERROR"
  | .invalidParent => "INVALID_PARENT"
  | .invalidTarget => "INVALID_TARGET"
  | .cycle => "CYCLE_VIOLATION"
  | .rootProtected => "ROOT_PROTECTED"
  | .elementNotFound => "ELEMENT_NOT_FOUND"
  | .invalidProp => "INVALID_PROP_VALUE"
  | .unknownStyle => "UNRECOGNIZED_STYLE_CATEGORY"
  | .generation => "GENERATION_ERROR"
  | .unknownKind => "UNKNOWN_COMPONENT_KIND"
  | .document => "DOCUMENT_ERROR"

/-- The wider family a family belongs to. -/
def wider? : Family → Option Family
  | .general => none
  | .edit => some .general
  | .invalidParent => some .edit
  | .invalidTarget => some .edit
  | .cycle => some .invalidTarget
  | .rootProtected => some .edit
  | .elementNotFound => some .edit
  | .invalidProp => some .edit
  | .unknownStyle => some .edit
  | .generation => some .general
  | .unknownKind => some .generation
  | .document => some .general

def all : List Family :=
  [.general, .edit, .invalidParent, .invalidTarget, .cycle, .rootProtected, .elementNotFound,
    .invalidProp, .unknownStyle, .generation, .unknownKind, .document]

/-- A message under the code of its family; an empty message leaves the code alone. -/
def report (family : Family) (message : String) : String :=
  if message.isEmpty then family.code else family.code ++ ": " ++ message

end Family

/-- Why an input is rejected. -/
inductive Rejection
  | rootTaken (root : String)
  | parentMissing (id : String)
  | parentClosed (id kind : String)
  | nothingToAttach
  /-- A copied element of a kind that holds no children has some. -/
  | closedCopy (id kind : String)
  /-- A copied element lists children that were not copied. -/
  | strayChildren (id : String)
  | rootFixed
  | rootUnique
  | targetMissing (id : String)
  | targetClosed (id kind : String)
  | targetInside (target id : String)
  | rootKept (id : String)
  | elementMissing (id : String)
  | prop (fault : PropFault)
  | style (fault : StyleFault)
  | unknownKind (kind : String) (element : Option String)
  | document (fault : DocumentFault)
deriving DecidableEq, Repr

namespace Rejection

def family : Rejection → Family
  | .rootTaken _ => .invalidParent
  | .parentMissing _ => .invalidParent
  | .parentClosed _ _ => .invalidParent
  | .nothingToAttach => .invalidTarget
  | .closedCopy _ _ => .invalidTarget
  | .strayChildren _ => .invalidTarget
  | .rootFixed => .invalidTarget
  | .rootUnique => .invalidTarget
  | .targetMissing _ => .invalidTarget
  | .targetClosed _ _ => .invalidTarget
  | .targetInside _ _ => .cycle
  | .rootKept _ => .rootProtected
  | .elementMissing _ => .elementNotFound
  | .prop _ => .invalidProp
  | .style (.unknown _) => .unknownStyle
  | .style (.unsupported _ _) => .invalidProp
  | .style (.tooLong _) => .invalidProp
  | .unknownKind _ _ => .unknownKind
  | .document _ => .document

/-- A rejection in words, without its code. -/
def message : Rejection → String
  | .rootTaken root => "composition already has root '" ++ root ++ "'"
  | .parentMissing id => "'" ++ id ++ "' does not exist"
  | .parentClosed id kind => "'" ++ id ++ "' (" ++ kind ++ ") cannot hold children"
  | .nothingToAttach => "nothing to insert"
  | .closedCopy id kind => "'" ++ id ++ "' (" ++ kind ++ ") cannot hold children"
  | .strayChildren id => "'" ++ id ++ "' lists children outside the copied subtree"
  | .rootFixed => "the root cannot be moved"
  | .rootUnique => "the root cannot be duplicated"
  | .targetMissing id => "'" ++ id ++ "' does not exist"
  | .targetClosed id kind => "'" ++ id ++ "' (" ++ kind ++ ") cannot hold children"
  | .targetInside target id => "'" ++ target ++ "' is inside '" ++ id ++ "'"
  | .rootKept id => "'" ++ id ++ "' is the root"
  | .elementMissing id => id
  | .prop fault => fault.message
  | .style fault => fault.message
  | .unknownKind kind none => "'" ++ kind ++ "' is not registered"
  | .unknownKind kind (some id) =>
    if id.isEmpty then "'" ++ kind ++ "' is not registered"
    else "'" ++ kind ++ "' is not registered (element '" ++ id ++ "')"
  | .document fault => fault.message

/-- A rejection as it is reported. -/
def report (r : Rejection) : String :=
  r.family.report r.message

end Rejection

/-- Why an operation ended without a result. -/
inductive Failure
  | rejected (reason : Rejection)
  /-- A look-up of an id that no element is stored under. -/
  | missingElement (id : String)
  /-- A look-up of the parent of an element that has none. -/
  | missingParent
  /-- Taking an element out of a list of children that does not hold it. -/
  | notAmongChildren
  /-- The place of an element in a list of children that does not hold it. -/
  | noPlace (id : String)
  /-- A text that denotes no integer. -/
  | integerText (text : String)
  /-- A numeral of too many digits. -/
  | longNumeral (digits : Nat)
  /-- A value without a text where its text is needed. -/
  | noText (fault : TextFault)
  | nanInteger
  | infiniteInteger
  | notNumeric
  | unknownViewport (name : String)
  | unknownDialect (name : String)
  | unknownShelf (shelf kind : String)
  /-- Undo or redo in the middle of a batch. -/
  | batchOpen (action : String)
  /-- A batch given up by its caller. -/
  | abandoned (message : String)
  | indentTooWide
  /-- Memory does not last; there is nothing to say about it. -/
  | outOfMemory
  /-- A document nested more deeply than can be read. -/
  | nestedTooDeeply
  /-- A document with half a surrogate pair that stands alone; what comes of it is left open. -/
  | strayHalf
  /-- A name of the logging library that stands for a text which names no level. -/
  | unknownLevel (text : String)
  /-- A name of the logging library that stands for nothing like a level. -/
  | noLevel
  /-- A text that cannot be printed, and why. -/
  | unprintable (words : String)
  /-- A binding inside a value that is to be saved, or a value nested too deeply. -/
  | unwritable
  /-- A snapshot is called for and none is given. -/
  | noSnapshot
  /-- A walk that would never end. -/
  | endless
deriving DecidableEq, Repr

namespace Failure

def viewportNames : List String :=
  ["desktop", "tablet", "mobile"]

def dialectNames : List String :=
  ["tsx", "jsx"]

/-- How many characters of a quoted numeral a message shows. -/
def numeralWidth : Nat := 200

/-- A failure as it is reported. -/
def message : Failure → String
  | .rejected reason => reason.report
  | .missingElement id => Text.quote id
  | .missingParent => Value.null.quoted
  | .notAmongChildren => "list.remove(x): x not in list"
  | .noPlace id => Text.quote id ++ " is not in list"
  | .integerText text =>
    "invalid literal for int() with base 10: " ++ Text.quoteWithin numeralWidth text
  | .longNumeral digits =>
    "Exceeds the limit (" ++ toString Number.digitLimit ++ " digits) for integer string " ++
      "conversion: value has " ++ toString digits ++
      " digits; use sys.set_int_max_str_digits() to increase the limit"
  | .noText fault => fault.message
  | .nanInteger => "cannot convert float NaN to integer"
  | .infiniteInteger => "cannot convert float infinity to integer"
  | .notNumeric => "not a number"
  | .unknownViewport name =>
    "unknown viewport " ++ Text.quote name ++ ", expected one of " ++
      Value.quotedNames viewportNames
  | .unknownDialect name =>
    "unknown dialect " ++ Text.quote name ++ ", expected one of " ++
      Value.quotedNames dialectNames
  | .unknownShelf shelf kind => "unknown category " ++ Text.quote shelf ++ " for '" ++ kind ++ "'"
  | .batchOpen action => "cannot " ++ action ++ " while a batch is open"
  | .abandoned message => message
  | .indentTooWide => "cannot fit 'int' into an index-sized integer"
  | .outOfMemory => ""
  | .nestedTooDeeply =>
    "maximum recursion depth exceeded while decoding a JSON object from a unicode string"
  | .strayHalf => "half a surrogate pair stands alone"
  | .unknownLevel text => "Unknown level: " ++ Text.quote text
  | .noLevel => "Level not an integer or a valid string"
  | .unprintable words => words
  | .unwritable => "a nested binding cannot be saved"
  | .noSnapshot => "there is no snapshot"
  | .endless => "the walk does not end"

/-- The failure of reading a text as an integer. -/
def ofNumeral (text : String) : Number.NumeralFault → Failure
  | .malformed => .integerText text
  | .tooLong digits => .longNumeral digits

/-- The failure of a refused prop: a rejection if it can be put in words. -/
def ofProp (fault : PropFault) : Failure :=
  match fault.textFault? with
  | some fault => .noText fault
  | none => .rejected (.prop fault)

/-- The failure of a refused style attribute: a rejection if it can be put in words. -/
def ofStyle (fault : StyleFault) : Failure :=
  match fault.textFault? with
  | some fault => .noText fault
  | none => .rejected (.style fault)

end Failure

end PageBuilder
