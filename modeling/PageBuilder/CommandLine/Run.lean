import PageBuilder.Archive.Write
import PageBuilder.CommandLine.Args
import PageBuilder.CommandLine.Files
import PageBuilder.Preferences
import PageBuilder.Source.Basic
import PageBuilder.Text.Hex

/-!
# Commands

`generate` compiles a saved page to source code; `check` says what is wrong with it and prints its
digest.  Most of what a user can cause is printed, with status 1; other failures are left to the
caller.

A run depends on files, which it comes to by a `FileAccess`, and on a `Machine`: how much its memory
holds, how deeply nested a document it can read, and what its console can show.
-/

namespace PageBuilder.CommandLine

/-- What is printed, and the status a run ends with. -/
structure Response where
  status : Nat
  output : String
deriving DecidableEq, Repr

/-- What a command has to print, piece by piece, and the status it ends with if all of it can be
printed. -/
structure Report where
  status : Nat
  pieces : List String
deriving DecidableEq, Repr

def version : String := "0.1.0"

/-- What is printed on request of the version. -/
def versionText : String :=
  "composer " ++ version ++ "\n"

/-- What is printed on request of help. -/
def helpText : String := Text.join "\n" [
  "",
  "Composer CLI v" ++ version,
  "",
  "Usage:",
  "  composer [options] <command> FILE",
  "",
  "Commands:",
  "  generate FILE     Compile a saved composition (JSON) to component source",
  "  check FILE        Validate a saved composition and print its fingerprint",
  "",
  "Options:",
  "  --dialect D       tsx (typed, default) or jsx (untyped)",
  "  --name NAME       Exported component name (default: GeneratedComponent)",
  "  --indent N        Spaces per indentation level (default: 2)",
  "  --out PATH        Write source to PATH instead of stdout",
  "  --markup          Emit only the element markup, no component wrapper",
  "  --no-imports      Omit import lines",
  "  -h, --help        Show this help",
  "  -v, --version     Show version",
  "",
  "Environment:",
  "  COMPOSER_DIALECT, COMPOSER_COMPONENT_NAME, COMPOSER_INDENT_WIDTH,",
  "  COMPOSER_IMPORT_MODULE, COMPOSER_LOG_LEVEL",
  "",
  "Examples:",
  "  composer generate page.json                       # TSX to stdout",
  "  composer generate page.json --dialect jsx --name Landing --out Landing.jsx",
  "  composer check page.json",
  "",
  ""]

/-! ## Troubles -/

/-- Why a command cannot be carried out. -/
inductive Trouble
  | file (path : Path) (fault : FileFault)
  | encoding (fault : Text.Utf8.Fault)
  | failure (failure : Failure)
deriving DecidableEq, Repr

def encodingCause : Text.Utf8.Cause → String
  | .start => "invalid start byte"
  | .continuation => "invalid continuation byte"
  | .truncated => "unexpected end of data"

/-- Where an encoding fault is, in words. -/
def encodingPlace (fault : Text.Utf8.Fault) : String :=
  if fault.count = 1 then
    "byte 0x" ++ String.ofList (Text.hexNumeral 2 fault.lead.toNat) ++ " in position " ++
      toString fault.start
  else
    "bytes in position " ++ toString fault.start ++ "-" ++ toString (fault.start + fault.count - 1)

def Trouble.message : Trouble → String
  | .file path fault => fault.message path
  | .encoding fault =>
    "'utf-8' codec can't decode " ++ encodingPlace fault ++ ": " ++ encodingCause fault.cause
  | .failure f => f.message

/-- Whether a failure says that an input is refused. -/
def isRefusal : Failure → Bool
  | .rejected _ => true
  | .integerText _ => true
  | .longNumeral _ => true
  | .noText .longInteger => true
  | .unknownDialect _ => true
  | _ => false

/-- The failure that is passed on of a trouble: one that is no refusal. -/
def Trouble.passedOn? : Trouble → Option Failure
  | .failure f => if isRefusal f then none else some f
  | _ => none

/-- The line that tells an error. -/
def errorLine (words : String) : String :=
  "Error: " ++ words ++ "\n"

/-! ## Machines -/

/-- What a run depends on besides files. -/
structure Machine where
  /-- Whether memory holds so many blanks. -/
  holds : Nat → Bool
  /-- Whether a text is nested too deeply to be read as a document. -/
  nestsTooDeep : String → Bool
  /-- Why a text cannot be printed, if it cannot. -/
  console : String → Option String
  /-- Whether logging has been set up before, so that the level is not looked at any more. -/
  logs : Bool
  /-- The code of a document in which half a surrogate pair stands alone.  No text holds that, so
  what comes of such documents is left open. -/
  strayCode : Source.Options → Bool → List UInt8 → Except Trouble String
  /-- What the check of such a document finds. -/
  strayReport : List UInt8 → Except Trouble Report

namespace Machine

/-- A machine without limits, on which such documents are not gone into. -/
def unlimited : Machine where
  holds _ := true
  nestsTooDeep _ := false
  console _ := none
  logs := false
  strayCode _ _ _ := .error (.failure .strayHalf)
  strayReport _ := .error (.failure .strayHalf)

/-- Prints pieces up to the first that cannot be printed: what is printed, and why no more. -/
def print (machine : Machine) : List String → String × Option String
  | [] => ("", none)
  | piece :: rest =>
    match machine.console piece with
    | some words => ("", some words)
    | none =>
      let (output, stop) := machine.print rest
      (piece ++ output, stop)

/-- Prints pieces outside of any command; that they cannot be printed is passed on. -/
def say (machine : Machine) (status : Nat) (pieces : List String) : Except Failure Response :=
  match machine.print pieces with
  | (output, none) => .ok ⟨status, output⟩
  | (_, some words) => .error (.unprintable words)

/-- Prints an error after what has been printed before. -/
def tell (machine : Machine) (printed words : String) : Except Failure Response :=
  match machine.console (errorLine words) with
  | none => .ok ⟨1, printed ++ errorLine words⟩
  | some words => .error (.unprintable words)

/-- What comes of a command: its report is printed, and so is a trouble, also that of printing the
report. -/
def settle (machine : Machine) : Except Trouble Report → Except Failure Response
  | .ok report =>
    match machine.print report.pieces with
    | (output, none) => .ok ⟨report.status, output⟩
    | (output, some words) => machine.tell output words
  | .error trouble =>
    match trouble.passedOn? with
    | some failure => .error failure
    | none => machine.tell "" trouble.message

end Machine

/-! ## The commands on the content of a file -/

/-- Whether a file is a text with half a surrogate pair that stands alone. -/
def isStray (octets : List UInt8) : Bool :=
  match Text.Utf8.decode octets with
  | .error _ => false
  | .ok cs => Json.hasLoneHalf cs

def snapshotOf (machine : Machine) (octets : List UInt8) : Except Trouble Snapshot :=
  match Text.Utf8.decode octets with
  | .error fault => .error (.encoding fault)
  | .ok cs =>
    let text := String.ofList (Text.unifyNewlines cs)
    if machine.nestsTooDeep text then .error (.failure .nestedTooDeeply)
    else (Archive.read text .builtIn).mapError .failure

/-- The options a command line and the preferences say together. -/
def optionsOf (preferences : Preferences) (args : Args) : Source.Options :=
  preferences.options {
    dialect := args.dialect, name := args.name, indent := args.indent,
    imports := some args.imports }

/-- The code of a snapshot: a source file, or the markup alone. -/
def codeOf (markup : Bool) (snapshot : Snapshot) (options : Source.Options) :
    Except Failure String :=
  if markup then Source.generateMarkup snapshot options .builtIn
  else Source.text <$> Source.generate snapshot options .builtIn

/-- Whether there is a line to indent, by a width for which memory does not last. -/
def exceeds (machine : Machine) (markup : Bool) (snapshot : Snapshot)
    (options : Source.Options) : Bool :=
  !(markup && snapshot.page.root.isNone) && options.indent < (Nat.pow 2 63 : Int) &&
    !machine.holds options.indent.toNat

/-- The code of a document.  That memory does not last is found out after everything that makes code
fail whatever the width. -/
def compile (machine : Machine) (preferences : Preferences) (args : Args) (octets : List UInt8) :
    Except Trouble String :=
  if isStray octets then machine.strayCode (optionsOf preferences args) args.markup octets
  else do
    let snapshot ← snapshotOf machine octets
    let options := optionsOf preferences args
    let code : Except Failure String :=
      if exceeds machine args.markup snapshot options then do
        discard (codeOf args.markup snapshot { options with indent := 0 })
        throw .outOfMemory
      else codeOf args.markup snapshot options
    code.mapError .failure

/-- What is to be printed of a page: its problems, each on a line, its size and its digest. -/
def inspection (snapshot : Snapshot) : Except Failure Report := do
  let draft ← Draft.ofPage .builtIn {} snapshot.page
  let digest ← Archive.digest snapshot
  let problems := draft.page.problems draft.catalog true
  let lines := problems.map fun problem => "  " ++ problem.message ++ "\n"
  return ⟨if problems.isEmpty then 0 else 1,
    lines ++ [toString snapshot.page.size ++ " elements, fingerprint " ++ digest ++ "\n"]⟩

def inspect (machine : Machine) (octets : List UInt8) : Except Trouble Report :=
  if isStray octets then machine.strayReport octets
  else do
    let snapshot ← snapshotOf machine octets
    (inspection snapshot).mapError .failure

/-! ## Whole runs -/

/-- What is wrong with the name of a log level.  A name that the logging library does not know
stands for the default level; two that it knows stand for something else than a level. -/
def levelFault? : String → Option Failure
  | "BASIC_FORMAT" => some (.unknownLevel "%(levelname)s:%(name)s:%(message)s")
  | "_STYLES" => some .noLevel
  | _ => none

/-- Sets up logging, unless that has been done before. -/
def setUpLogging (machine : Machine) (preferences : Preferences) : Except Failure Unit :=
  match levelFault? preferences.logLevel with
  | some failure => if machine.logs then .ok () else .error failure
  | none => .ok ()

section Run

variable {m : Type → Type} [Monad m]

/-- Compiles a file and prints or writes its code. -/
def runGenerate (access : FileAccess m) (machine : Machine) (preferences : Preferences)
    (args : Args) (file : String) : m (Except Trouble Report) := do
  let path := Path.ofText file
  match ← access.read path with
  | .error fault => return .error (.file path fault)
  | .ok octets =>
    match compile machine preferences args octets with
    | .error trouble => return .error trouble
    | .ok code =>
      match args.out with
      | none => return .ok ⟨0, [code]⟩
      | some out =>
        if out.isEmpty then return .ok ⟨0, [code]⟩
        let target := Path.ofText out
        match ← access.write target (Text.Utf8.encode code) with
        | .error fault => return .error (.file target fault)
        | .ok () => return .ok ⟨0, []⟩

def runCheck (access : FileAccess m) (machine : Machine) (file : String) :
    m (Except Trouble Report) := do
  let path := Path.ofText file
  match ← access.read path with
  | .error fault => return .error (.file path fault)
  | .ok octets => return inspect machine octets

/-- Carries out a command on a file. -/
def carryOut (access : FileAccess m) (machine : Machine) (preferences : Preferences) (args : Args)
    (command : Command) (file : String) : m (Except Trouble Report) :=
  match command with
  | .generate => runGenerate access machine preferences args file
  | .check => runCheck access machine file

/-- Does what a command line says.  Help comes before the version and both before the commands; a
command line without command or file is answered with help too. -/
def perform (access : FileAccess m) (machine : Machine) (preferences : Preferences) (args : Args) :
    m (Except Failure Response) :=
  if args.help then return machine.say 0 [helpText]
  else if args.version then return machine.say 0 [versionText]
  else
    match args.command, args.file with
    | some command, some file =>
      machine.settle <$> carryOut access machine preferences args command file
    | _, _ => return machine.say 1 [helpText]

/-- Runs a command line. -/
def runWith (access : FileAccess m) (machine : Machine) (preferences : Preferences)
    (argv : List String) : m (Except Failure Response) :=
  match Args.parse argv with
  | .error (.numeral text fault) => return .error (.ofNumeral text fault)
  | .error fault => return machine.say 1 fault.pieces
  | .ok args =>
    match setUpLogging machine preferences with
    | .error failure => return .error failure
    | .ok () => perform access machine preferences args

end Run

/-- Runs a command line on files that are a value, and gives the files afterwards. -/
def run (preferences : Preferences) (files : Files) (argv : List String) :
    Except Failure Response × Files :=
  runWith Files.access .unlimited preferences argv files

end PageBuilder.CommandLine
