import PageBuilder.Archive.Write
import PageBuilder.Session.Edit

/-!
# Timeline, selection, viewport and output of a session

None of these operations commits anything.
-/

namespace PageBuilder.Session

/-! ## Timeline -/

/-- Refuses an action while a batch is open. -/
def outsideBatch (action : String) : Action Unit := fun s =>
  if s.inBatch then .error (.batchOpen action) s else .ok () s

/-- Makes the present entry of a timeline the page being edited. -/
def travel (timeline : Timeline Snapshot) : Action Snapshot := do
  modify fun s => { s with timeline := timeline }
  restore timeline.present
  return timeline.present

/-- Goes back to the snapshot before the present one. -/
def undo : Action Snapshot := do
  outsideBatch "undo"
  travel (← get).timeline.undo

/-- Goes forward to the next undone snapshot. -/
def redo : Action Snapshot := do
  outsideBatch "redo"
  travel (← get).timeline.redo

/-! ## Selection -/

/-- Ids appended to a list, each once. -/
def addOnce (chosen ids : List String) : List String :=
  ids.foldl (fun chosen id => if chosen.contains id then chosen else chosen ++ [id]) chosen

/-- Selects elements of the page, beside those already selected or in their place. -/
def select (ids : List String) (additive : Bool) : Action Unit := fun s =>
  match ids.find? fun id => !s.draft.page.contains id with
  | some id => .error (.rejected (.elementMissing id)) s
  | none => .ok () { s with selection := addOnce (if additive then s.selection else []) ids }

def clearSelection : Action Unit := fun s =>
  .ok () { s with selection := [] }

/-! ## Viewport -/

def setViewportEntry (key : String) (value : Value) : Action Unit := fun s =>
  .ok () { s with viewport := s.viewport.insert key value }

def setViewport (name : String) : Action Unit :=
  if Failure.viewportNames.contains name then setViewportEntry "name" (.str name)
  else lift (.error (.unknownViewport name))

/-- The integer of a finite number, without its fraction. -/
def wholeOf (x : Double) : Except Failure Int :=
  match x with
  | .nan => .error .nanInteger
  | .infinite _ => .error .infiniteInteger
  | .finite negative m e _ =>
    .ok (if negative then -(Double.wholePart m e : Int) else Double.wholePart m e)

/-- The integer a value stands for: a number without its fraction, a truth value as one or zero,
a text as it reads. -/
def integerOf : Value → Except Failure Int
  | .bool b => .ok (if b then 1 else 0)
  | .int n => .ok n
  | .float x => wholeOf x
  | .str s =>
    match Number.readInteger s with
    | .ok n => .ok n
    | .error fault => .error (.ofNumeral s fault)
  | _ => .error .notNumeric

/-- The nearest zoom there is. -/
def clampZoom (percent : Int) : Int :=
  max Archive.leastZoom (min Archive.greatestZoom percent)

def setZoom (percent : Value) : Action Unit := do
  let n ← lift (integerOf percent)
  setViewportEntry "zoom" (.int (clampZoom n))

/-! ## Output -/

/-- Generates code and keeps it; a failure keeps what was generated before. -/
def generate (options : Option Source.Options) : Action Source := do
  let s ← get
  let source ← lift (Source.generate s.snapshot (options.getD (s.preferences.options {}))
    s.draft.catalog)
  modify fun s => { s with lastSource := some source }
  return source

/-- The saved text of the session as it is, and its digest. -/
def save : Action (String × String) := do
  let s ← get
  let text ← lift (Archive.write s.snapshot)
  let digest ← lift (Archive.digest s.snapshot)
  return (text, digest)

end PageBuilder.Session
