import PageBuilder.CommandLine.Run

/-!
# The program

Everything that touches the system: the environment, files and the output.
-/

namespace PageBuilder.CommandLine

/-- Whether a code of the system is a given one; some calls report codes with the sign changed. -/
def isCode (code expected : UInt32) : Bool :=
  code = expected || code = 0 - expected

/-- The fault that an error of the system stands for. -/
def faultOf : IO.Error → FileFault
  | .noFileOrDirectory .. => .missing
  | .inappropriateType _ code _ => if isCode code 20 then .notFolder else .isFolder
  | .invalidArgument _ code details => if isCode code 36 then .nameTooLong else .other details
  | error => .other (toString error)

/-- Does something with a file whose path the system can take. -/
def attempt {α : Type} (path : Path) (action : IO α) : IO (Except FileFault α) := do
  if path.text.toList.contains (Char.ofNat 0) then return .error .nullCharacter
  try
    return .ok (← action)
  catch error => return .error (faultOf error)

def systemFiles : FileAccess IO where
  read path := attempt path do
    return (← IO.FS.readBinFile path.text).toList
  write path octets := attempt path do
    IO.FS.writeBinFile path.text ⟨octets.toArray⟩

/-- The variables that the preferences are made of. -/
def environmentNames : List String := [
  "COMPOSER_DIALECT", "COMPOSER_COMPONENT_NAME", "COMPOSER_INDENT_WIDTH",
  "COMPOSER_IMPORT_MODULE", "COMPOSER_HISTORY_LIMIT", "COMPOSER_LOG_LEVEL"]

/-- The preferences that the environment holds. -/
def systemPreferences : IO Preferences := do
  let pairs ← environmentNames.mapM fun name => do return (name, ← IO.getEnv name)
  return .ofEnvironment fun name => (pairs.lookup name).join

end PageBuilder.CommandLine

open PageBuilder.CommandLine in
def main (argv : List String) : IO UInt32 := do
  match ← runWith systemFiles .unlimited (← systemPreferences) argv with
  | .ok response =>
    IO.print response.output
    return response.status.toUInt32
  | .error failure =>
    IO.eprintln failure.message
    return 1
