import PageBuilder.Archive.Read
import PageBuilder.Digest.Sha256
import PageBuilder.Json.Printer
import PageBuilder.Text.Utf8

/-!
# Saving a document

A snapshot is saved as JSON with sorted keys in a fixed layout, so that snapshots of the same
content have the same text.  The digest is a short name for that content.  A snapshot that holds an
integer of too many digits has neither.
-/

namespace PageBuilder.Archive

def version : Int := 1

/-- The JSON of a value that holds no binding. -/
def plainJson (value : Value) : Except Failure Json :=
  match value.toJson? with
  | some json => .ok json
  | none => .error .unwritable

/-- The JSON of a prop: a binding is an object with its expression. -/
def propJson : Value → Except Failure Json
  | .binding e => (fun json => .object [(bindingKey, json)]) <$> plainJson e
  | value => plainJson value

def membersJson (json : Value → Except Failure Json) :
    List (String × Value) → Except Failure (List (String × Json))
  | [] => .ok []
  | (key, value) :: rest => do
    let j ← json value
    let js ← membersJson json rest
    return (key, j) :: js

def optionalJson : Option String → Json
  | none => .null
  | some s => .str s

/-- The JSON of an element, which is saved under its id. -/
def elementJson (e : Element) : Except Failure Json := do
  let props ← membersJson propJson e.props.entries
  let style ← membersJson plainJson e.style.entries
  return .object [("kind", .str e.kind), ("props", .object props), ("style", .object style),
    ("children", .array (e.children.map .str)), ("parent", optionalJson e.parent)]

def elementsJson : List (String × Element) → Except Failure (List (String × Json))
  | [] => .ok []
  | (id, e) :: rest => do
    let j ← elementJson e
    let js ← elementsJson rest
    return (id, j) :: js

def toJson (snapshot : Snapshot) : Except Failure Json := do
  let elements ← elementsJson snapshot.page.elements.entries
  let viewport ← membersJson plainJson snapshot.viewport.entries
  return .object [("version", .int version), ("root", optionalJson snapshot.page.root),
    ("elements", .object elements), ("selection", .array (snapshot.selection.map .str)),
    ("viewport", .object viewport)]

/-- The JSON of a snapshot, if all its integers can be written. -/
def writableJson (snapshot : Snapshot) : Except Failure Json := do
  let json ← toJson snapshot
  if json.fits then return json else throw (.noText .longInteger)

def write (snapshot : Snapshot) : Except Failure String :=
  (fun json => json.pretty ++ "\n") <$> writableJson snapshot

/-- The first sixteen hexadecimal digits of the SHA-256 digest of the compact JSON. -/
def digest (snapshot : Snapshot) : Except Failure String :=
  (fun json => String.ofList ((Sha256.hexDigest (Text.Utf8.encode json.compact)).take 16)) <$>
    writableJson snapshot

end PageBuilder.Archive
