import PageBuilder.Session.View

/-!
# Scripts

A `Command` is an operation of a session before it is carried out; a `Step` is a command or a
batch of steps.  Running steps gives a report of each that was run, so that whole sessions can be
spoken about.

A batch inside another one joins it.  If a failure leaves the outermost batch, everything done
inside is rolled back and nothing is committed.
-/

namespace PageBuilder.Session

/-! ## Batches -/

/-- The session inside a batch opened now. -/
def enter (s : Session) : Session :=
  if s.inBatch then { s with openBatches := s.openBatches + 1 }
  else { s with openBatches := 1, changedInBatch := false }

/-- The session after the outermost batch is done: it commits if something changed. -/
def finish (s : Session) : Session :=
  if s.changedInBatch then { s with openBatches := 0 }.commit else { s with openBatches := 0 }

/-- The end of a batch opened in the session `before`. -/
def leave {α : Type} (before : Session) :
    EStateM.Result Failure Session α → EStateM.Result Failure Session α
  | .ok a s =>
    if before.inBatch then .ok a { s with openBatches := s.openBatches - 1 } else .ok a s.finish
  | .error failure s =>
    if before.inBatch then .error failure { s with openBatches := s.openBatches - 1 }
    else
      match restore before.snapshot { s with openBatches := 0 } with
      | .ok () s => .error failure s
      | .error failure s => .error failure s

def batch {α : Type} (body : Action α) : Action α := fun s =>
  s.leave (body s.enter)

/-! ## Commands -/

/-- What a session is loaded from. -/
inductive Origin
  | snapshot (snapshot : Snapshot)
  | text (text : String)
  | nothing
deriving DecidableEq, Repr

/-- The snapshot to load; there is none in nothing. -/
def Origin.read (catalog : Catalog) : Origin → Except Failure Snapshot
  | .snapshot given => .ok given
  | .text saved => Archive.read saved catalog
  | .nothing => .error .noSnapshot

inductive Command
  | insert (parent : Option String) (kind : String) (index : Option Int)
      (props style : OrderedMap Value)
  | move (id target : String) (index : Option Int)
  | updateProps (id : String) (props : OrderedMap Value)
  | updateStyle (id : String) (style : OrderedMap Value)
  | remove (id : String)
  | duplicate (id : String)
  | copy (id : String)
  | paste (parent : Option String) (index : Option Int)
  | clear
  | load (origin : Origin)
  | undo
  | redo
  | select (ids : List String) (additive : Bool)
  | clearSelection
  | setViewport (name : String)
  | setZoom (percent : Value)
  | generate (options : Option Source.Options)
  | save
  | entries
  | ask (query : Draft.Query)
deriving DecidableEq, Repr

inductive Reply
  | done
  | id (id : Option String)
  | removed (ids : List String)
  | source (source : Source)
  | saved (text digest : String)
  | snapshot (snapshot : Snapshot)
  | snapshots (snapshots : List Snapshot)
  | found (finding : Draft.Finding)
deriving DecidableEq, Repr

def silently (action : Action Unit) : Action Reply :=
  (fun _ => .done) <$> action

def Command.run : Command → Action Reply
  | .insert parent kind index props style =>
    (fun id => .id (some id)) <$> Session.insert parent kind index props style
  | .move id target index => silently (Session.move id target index)
  | .updateProps id props => silently (Session.updateProps id props)
  | .updateStyle id style => silently (Session.updateStyle id style)
  | .remove id => .removed <$> Session.remove id
  | .duplicate id => (fun new => .id (some new)) <$> Session.duplicate id
  | .copy id => silently (Session.copy id)
  | .paste parent index => .id <$> Session.paste parent index
  | .clear => silently Session.clear
  | .load origin => silently do
    let snapshot ← lift (origin.read (← get).draft.catalog)
    Session.load snapshot
  | .undo => .snapshot <$> Session.undo
  | .redo => .snapshot <$> Session.redo
  | .select ids additive => silently (Session.select ids additive)
  | .clearSelection => silently Session.clearSelection
  | .setViewport name => silently (Session.setViewport name)
  | .setZoom percent => silently (Session.setZoom percent)
  | .generate options => .source <$> Session.generate options
  | .save => (fun p => .saved p.1 p.2) <$> Session.save
  | .entries => (fun s => .snapshots s.timeline.entries) <$> get
  | .ask query => do
    let finding ← lift ((← get).draft.answer query)
    return .found finding

/-! ## Steps -/

/-- A command or a batch of steps.  A step that `escalates` passes its failure on to the steps
around it, which end; other failures are noted and the next step follows. -/
inductive Step
  | command (command : Command) (escalates : Bool)
  /-- A batch; given up at its end if a message says so. -/
  | batch (steps : List Step) (abandon : Option String) (escalates : Bool)

/-- Whether a step passes its failure on. -/
def Step.escalates : Step → Bool
  | .command _ escalates => escalates
  | .batch _ _ escalates => escalates

/-- What came of a step: its outcome, the session after it, and the reports of the steps in it. -/
inductive Report
  | mk (outcome : Except Failure Reply) (after : Session) (inner : List Report)

def Report.outcome : Report → Except Failure Reply
  | .mk outcome _ _ => outcome

def Report.after : Report → Session
  | .mk _ after _ => after

def Report.ofResult (inner : List Report) : EStateM.Result Failure Session Reply → Report
  | .ok reply s => .mk (.ok reply) s inner
  | .error failure s => .mk (.error failure) s inner

/-- The failure that steps pass on after a report. -/
def Report.passedOn (report : Report) (escalates : Bool) : Option Failure :=
  match report.outcome with
  | .error failure => if escalates then some failure else none
  | .ok _ => none

/-- What came of steps: reports of those that were run, and the session or the failure they end
with. -/
structure Progress where
  reports : List Report
  result : EStateM.Result Failure Session Unit

/-- The end of the steps of a batch: given up if a message says so. -/
def conclude (abandon : Option String) :
    EStateM.Result Failure Session Unit → EStateM.Result Failure Session Reply
  | .ok () s =>
    match abandon with
    | none => .ok .done s
    | some message => .error (.abandoned message) s
  | .error failure s => .error failure s

mutual

def Step.run (s : Session) : Step → Report
  | .command command _ => .ofResult [] (command.run s)
  | .batch steps abandon _ =>
    let progress := runSteps s.enter steps
    .ofResult progress.reports (s.leave (conclude abandon progress.result))

/-- Runs steps in order, up to the first that passes a failure on. -/
def runSteps (s : Session) : List Step → Progress
  | [] => ⟨[], .ok () s⟩
  | step :: rest =>
    let report := step.run s
    match report.passedOn step.escalates with
    | some failure => ⟨[report], .error failure report.after⟩
    | none =>
      let progress := runSteps report.after rest
      ⟨report :: progress.reports, progress.result⟩

end

end PageBuilder.Session
