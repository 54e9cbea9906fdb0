import PageBuilder.Number.Integer

/-!
# Arguments of the command line

A command line names a command, a file and options, in any order.  The first argument that makes
no sense decides the fault.
-/

namespace PageBuilder.CommandLine

/-- What can be done with a saved page. -/
inductive Command
  | generate
  | check
deriving DecidableEq, Repr

def Command.ofName? : String → Option Command
  | "generate" => some .generate
  | "check" => some .check
  | _ => none

def Command.name : Command → String
  | .generate => "generate"
  | .check => "check"

/-- What a command line says. -/
structure Args where
  command : Option Command := none
  file : Option String := none
  dialect : Option String := none
  name : Option String := none
  indent : Option Int := none
  out : Option String := none
  markup : Bool := false
  imports : Bool := true
  help : Bool := false
  version : Bool := false
deriving DecidableEq, Repr

/-- Why a command line makes no sense. -/
inductive UsageFault
  | valueMissing (option : String)
  | indent
  /-- Digits that cannot be read. -/
  | numeral (text : String) (fault : Number.NumeralFault)
  | unknownOption (option : String)
  | unknownCommand (word : String)
deriving DecidableEq, Repr

/-- Where a user finds help. -/
def helpHint : String := "Run 'composer --help' for usage.\n"

/-- What is printed of a fault, line by line. -/
def UsageFault.pieces : UsageFault → List String
  | .valueMissing option => ["Error: " ++ option ++ " requires a value\n"]
  | .indent => ["Error: --indent requires a positive integer\n"]
  | .numeral text _ => ["Error: " ++ text ++ " is no integer\n"]
  | .unknownOption option => ["Unknown option: " ++ option ++ "\n", helpHint]
  | .unknownCommand word => ["Unknown command: " ++ word ++ "\n", helpHint]

namespace Args

/-- The options that take a value. -/
def valued : List String :=
  ["--dialect", "--name", "--indent", "--out"]

/-- The width that the text after the indent option gives. -/
def indentOf (text : String) : Except UsageFault Int :=
  if Text.isDigitLikeText text then
    match Number.readInteger text with
    | .error fault => .error (.numeral text fault)
    | .ok n => if n < 1 then .error .indent else .ok n
  else .error .indent

def setValue (args : Args) (option value : String) : Except UsageFault Args :=
  match option with
  | "--dialect" => .ok { args with dialect := some value }
  | "--name" => .ok { args with name := some value }
  | "--indent" => (fun n => { args with indent := some n }) <$> indentOf value
  | _ => .ok { args with out := some value }

/-- Takes an argument that is neither a command nor an option: the file. -/
def takeWord (args : Args) (word : String) : Except UsageFault Args :=
  if word.startsWith "-" then .error (.unknownOption word)
  else if args.command.isSome && args.file.isNone then .ok { args with file := some word }
  else .error (.unknownCommand word)

/-- Takes an argument that stands alone. -/
def takeAlone (args : Args) (arg : String) : Except UsageFault Args :=
  match arg with
  | "--markup" => .ok { args with markup := true }
  | "--no-imports" => .ok { args with imports := false }
  | "--help" => .ok { args with help := true }
  | "-h" => .ok { args with help := true }
  | "--version" => .ok { args with version := true }
  | "-v" => .ok { args with version := true }
  | word =>
    match Command.ofName? word with
    | none => args.takeWord word
    | some command =>
      if args.command.isNone then .ok { args with command := some command }
      else args.takeWord word

def takeAll (args : Args) : List String → Except UsageFault Args
  | [] => .ok args
  | [arg] => if valued.contains arg then .error (.valueMissing arg) else args.takeAlone arg
  | arg :: next :: rest =>
    if valued.contains arg then
      match args.setValue arg next with
      | .error fault => .error fault
      | .ok args => takeAll args rest
    else
      match args.takeAlone arg with
      | .error fault => .error fault
      | .ok args => takeAll args (next :: rest)

/-- What a command line says. -/
def parse (argv : List String) : Except UsageFault Args :=
  takeAll {} argv

end Args

end PageBuilder.CommandLine
