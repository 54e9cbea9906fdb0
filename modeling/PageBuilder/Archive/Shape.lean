import PageBuilder.Failure
import PageBuilder.Number.Lenient

/-!
# The shape of a document

A document is a JSON object with a version, a root, elements by id, a selection and a viewport,
all of which may be left out.  Reading its shape collects every fault, in the order of these
fields and then of the keys that do not belong.
-/

namespace PageBuilder.Archive

/-- The shape read from a part, or all its faults in order. -/
abbrev Shaped (α : Type) : Type := Except (List ShapeFault) α

/-- Two parts, with the faults of both. -/
def Shaped.both {α β : Type} (a : Shaped α) (b : Shaped β) : Shaped (α × β) :=
  match a, b with
  | .ok x, .ok y => .ok (x, y)
  | .ok _, .error faults => .error faults
  | .error faults, .ok _ => .error faults
  | .error faults, .error more => .error (faults ++ more)

/-- A list of parts, with the faults of all. -/
def Shaped.all {α : Type} : List (Shaped α) → Shaped (List α)
  | [] => .ok []
  | part :: rest => (fun p => p.1 :: p.2) <$> part.both (Shaped.all rest)

def Shaped.fault {α : Type} (f : ShapeFault) : Shaped α := .error [f]

structure ElementShape where
  kind : String
  props : List (String × Json)
  style : List (String × String)
  children : List String
  parent : Option String
deriving DecidableEq, Repr

structure Shape where
  root : Option String
  elements : List (String × ElementShape)
  selection : List String
  viewport : String
  zoom : Int
deriving DecidableEq, Repr

/-! ## Parts -/

def stringShape : Json → Shaped String
  | .str s => .ok s
  | _ => .fault .string

def optionalShape : Json → Shaped (Option String)
  | .null => .ok none
  | json => some <$> stringShape json

def stringsShape : Json → Shaped (List String)
  | .array items => Shaped.all (items.map stringShape)
  | _ => .fault .list

def membersShape : Json → Shaped (List (String × Json))
  | .object members => .ok members
  | _ => .fault .dictionary

/-- An object whose members all have one shape. -/
def mapShape {α : Type} (shape : Json → Shaped α) (json : Json) : Shaped (List (String × α)) :=
  match membersShape json with
  | .error faults => .error faults
  | .ok members => Shaped.all (members.map fun m => (fun x => (m.1, x)) <$> shape m.2)

/-- A member that may be left out. -/
def field {α : Type} (members : List (String × Json)) (key : String) (default : α)
    (shape : Json → Shaped α) : Shaped α :=
  match members.lookup key with
  | none => .ok default
  | some json => shape json

/-- A fault for each member whose key is not one of those known. -/
def extraShape (members : List (String × Json)) (keys : List String) : Shaped Unit :=
  match (members.filter fun m => !keys.contains m.1).map fun _ => ShapeFault.extra with
  | [] => .ok ()
  | faults => .error faults

/-- Whether a value is one: as an integer, a double or a truth value. -/
def isOne : Json → Bool
  | .int n => n = 1
  | .bool b => b
  | .float x => x = .ofDecimal false 1 0
  | _ => false

/-- Whether a value is an integer that 64 bits cannot hold. -/
def isWideInteger : Json → Bool
  | .int n => n < -(Nat.pow 2 63 : Int) || (Nat.pow 2 63 : Int) ≤ n
  | _ => false

/-- The version, which is one. -/
def versionShape (json : Json) : Shaped Unit :=
  if isOne json then .ok ()
  else if isWideInteger json then .fault .integerTooLarge
  else .fault .version

def kindShape (json : Json) : Shaped String :=
  match stringShape json with
  | .error faults => .error faults
  | .ok kind => if kind.isEmpty then .fault .emptyString else .ok kind

def viewportNameShape : Json → Shaped String
  | .str name => if Failure.viewportNames.contains name then .ok name else .fault .viewportName
  | _ => .fault .viewportName

/-- An integer: truth values count as one and zero, doubles without a fraction and texts are let
pass. -/
def integerShape : Json → Shaped Int
  | .int n => .ok n
  | .bool b => .ok (if b then 1 else 0)
  | .float x =>
    match x.truncate? with
    | none => .fault .integerInfinite
    | some n =>
      if !x.isIntegral then .fault .integerFraction
      else if n.natAbs < Nat.pow 2 63 then .ok n
      else .fault .integerTooLarge
  | .str s =>
    match Number.Lenient.integer? s with
    | some n => .ok n
    | none => .fault .integerText
  | _ => .fault .integer

def leastZoom : Int := 10

def greatestZoom : Int := 400

def zoomShape (json : Json) : Shaped Int :=
  match integerShape json with
  | .error faults => .error faults
  | .ok n =>
    if n < leastZoom then .fault (.below leastZoom)
    else if greatestZoom < n then .fault (.above greatestZoom)
    else .ok n

def viewportShape : Json → Shaped (String × Int)
  | .object members =>
    (fun p => (p.1, p.2.1)) <$>
      (field members "name" "desktop" viewportNameShape).both
        ((field members "zoom" 100 zoomShape).both (extraShape members ["name", "zoom"]))
  | _ => .fault (.record .viewport)

def elementShape : Json → Shaped ElementShape
  | .object members =>
    let kind : Shaped String :=
      match members.lookup "kind" with
      | none => .fault .required
      | some json => kindShape json
    (fun (kind, props, style, children, parent, _) => ⟨kind, props, style, children, parent⟩) <$>
      kind.both
        ((field members "props" [] membersShape).both
          ((field members "style" [] (mapShape stringShape)).both
            ((field members "children" [] stringsShape).both
              ((field members "parent" none optionalShape).both
                (extraShape members ["kind", "props", "style", "children", "parent"])))))
  | _ => .fault (.record .element)

def documentShape : Json → Shaped Shape
  | .object members =>
    (fun (_, root, elements, selection, viewport, _) =>
        ⟨root, elements, selection, viewport.1, viewport.2⟩) <$>
      (field members "version" () versionShape).both
        ((field members "root" none optionalShape).both
          ((field members "elements" [] (mapShape elementShape)).both
            ((field members "selection" [] stringsShape).both
              ((field members "viewport" ("desktop", 100) viewportShape).both
                (extraShape members
                  ["version", "root", "elements", "selection", "viewport"])))))
  | _ => .fault (.record .snapshot)

end PageBuilder.Archive
