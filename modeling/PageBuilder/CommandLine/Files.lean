import PageBuilder.OrderedMap
import PageBuilder.Text.Lines
import PageBuilder.Text.Quoted
import PageBuilder.Text.Utf8

/-!
# Files

The commands read one file and write at most one.  `FileAccess` is what they need for it, and
`Files` is a file system that is a plain value: the files of a working folder by their paths.
-/

namespace PageBuilder.CommandLine

/-! ## Paths -/

/-- A path: slashes it begins with, then names. -/
structure Path where
  top : String
  names : List String
deriving DecidableEq, Repr

namespace Path

/-- The parts of a text between slashes. -/
def split : List Char → List (List Char)
  | [] => [[]]
  | c :: rest =>
    if c = '/' then [] :: split rest
    else
      match split rest with
      | [] => [[c]]
      | part :: parts => (c :: part) :: parts

/-- The slashes a path begins with: two are kept, more count as one. -/
def topOf (cs : List Char) : String :=
  match (cs.takeWhile (· = '/')).length with
  | 0 => ""
  | 2 => "//"
  | _ => "/"

/-- The path a text denotes; empty names and single dots are dropped. -/
def ofText (s : String) : Path :=
  ⟨topOf s.toList,
    ((split s.toList).filter fun part => !part.isEmpty && part ≠ ['.']).map String.ofList⟩

def text (path : Path) : String :=
  if path.top.isEmpty && path.names.isEmpty then "."
  else path.top ++ Text.join "/" path.names

end Path

/-! ## Access -/

/-- Why a file cannot be read or written. -/
inductive FileFault
  | missing
  | notFolder
  | isFolder
  | nameTooLong
  /-- The path has a null character. -/
  | nullCharacter
  /-- Anything else, in the words of the system. -/
  | other (text : String)
deriving DecidableEq, Repr

def FileFault.message (path : Path) : FileFault → String
  | .missing => "[Errno 2] No such file or directory: " ++ Text.quote path.text
  | .notFolder => "[Errno 20] Not a directory: " ++ Text.quote path.text
  | .isFolder => "[Errno 21] Is a directory: " ++ Text.quote path.text
  | .nameTooLong => "[Errno 36] File name too long: " ++ Text.quote path.text
  | .nullCharacter => "embedded null byte"
  | .other words => words

/-- How files are read and written. -/
structure FileAccess (m : Type → Type) where
  read : Path → m (Except FileFault (List UInt8))
  write : Path → List UInt8 → m (Except FileFault Unit)

/-! ## A file system that is a value -/

/-- The files of a working folder by the texts of their paths. -/
abbrev Files : Type := OrderedMap (List UInt8)

namespace Files

/-- Whether a folder below the working folder is there: one that a file is in. -/
def isFolder (files : Files) (names : List String) : Bool :=
  files.keys.any fun key => names.isPrefixOf (Path.ofText key).names.dropLast

/-- What a path leads to. -/
inductive Place
  | folder
  | file (key : String)
  /-- No file, in a folder that is there. -/
  | vacant (key : String)
deriving DecidableEq, Repr

def longestName : Nat := 255

def longestPath : Nat := 4095

/-- Whether a name is longer than file systems allow. -/
def isTooLong (name : String) : Bool :=
  longestName < (Text.Utf8.encode name).length

/-- The folder above a folder, both given by names from the working folder on. -/
def above (folder : List String) : List String :=
  if folder.all (· = "..") then folder ++ [".."] else folder.dropLast

/-- Follows names from a folder on.  The folders above the working folder are there; files outside
of it are not, unless they were written. -/
def follow (files : Files) (folder : List String) : List String → Except FileFault Place
  | [] => .ok .folder
  | ".." :: rest => files.follow (above folder) rest
  | name :: rest =>
    let here := folder ++ [name]
    let key := Text.join "/" here
    if isTooLong name then .error .nameTooLong
    else if files.contains key then
      if rest.isEmpty then .ok (.file key) else .error .notFolder
    else if files.isFolder here then files.follow here rest
    else if rest.isEmpty then .ok (.vacant key)
    else .error .missing

/-- What names from the topmost folder on lead to: nothing, as this file system has no files
there. -/
def followFromTop (names : List String) : Except FileFault Place :=
  match names.find? (· ≠ "..") with
  | none => .ok .folder
  | some name => .error (if isTooLong name then .nameTooLong else .missing)

/-- What a path leads to. -/
def locate (files : Files) (path : Path) : Except FileFault Place :=
  if path.names.any fun name => name.toList.contains (Char.ofNat 0) then .error .nullCharacter
  else if longestPath < (Text.Utf8.encode path.text).length then .error .nameTooLong
  else if path.top.isEmpty then files.follow [] path.names
  else followFromTop path.names

def read (files : Files) (path : Path) : Except FileFault (List UInt8) :=
  match files.locate path with
  | .error fault => .error fault
  | .ok .folder => .error .isFolder
  | .ok (.vacant _) => .error .missing
  | .ok (.file key) =>
    match files.get? key with
    | some octets => .ok octets
    | none => .error .missing

/-- The files with the content of one replaced, or with one more. -/
def write (files : Files) (path : Path) (octets : List UInt8) : Except FileFault Files :=
  match files.locate path with
  | .error fault => .error fault
  | .ok .folder => .error .isFolder
  | .ok (.vacant key) => .ok (files.insert key octets)
  | .ok (.file key) => .ok (files.insert key octets)

/-- Access to files that are the state of a computation. -/
def access : FileAccess (StateM Files) where
  read path := fun files => (files.read path, files)
  write path octets := fun files =>
    match files.write path octets with
    | .error fault => (.error fault, files)
    | .ok files => (.ok (), files)

end Files

end PageBuilder.CommandLine
