import PageBuilder.Draft.Script
import PageBuilder.Preferences
import PageBuilder.Source.Basic
import PageBuilder.Timeline

/-!
# Sessions

A session is a draft with everything around it: the timeline of snapshots, the selection, the
viewport and the clipboard.  Every edit that is carried out commits one snapshot; a rejected one
commits nothing.  Selection and viewport are part of the next snapshot and commit nothing by
themselves.  Edits can be grouped in a batch, which commits once, or not at all.
-/

namespace PageBuilder

/-- A draft with its timeline and what is shown and kept beside it. -/
structure Session where
  draft : Draft
  timeline : Timeline Snapshot
  selection : List String
  viewport : Viewport
  clipboard : Option (List Element) := none
  /-- The number of batches that are open, one inside the other. -/
  openBatches : Nat := 0
  /-- Whether something changed since the outermost batch was opened. -/
  changedInBatch : Bool := false
  /-- The code generated last. -/
  lastSource : Option Source := none
  preferences : Preferences := {}
deriving DecidableEq, Repr

namespace Session

abbrev Action (α : Type) : Type := EStateM Failure Session α

/-- A session that starts from a snapshot.  Without a limit of its own the timeline has that of
the preferences.  The snapshot is taken as it is: only later ones have their selection checked and
an empty viewport replaced. -/
def start (catalog : Catalog) (initial : Snapshot) (limit : Option Int)
    (preferences : Preferences) : Except Failure Session :=
  match Draft.ofPage catalog {} initial.page with
  | .error failure => .error failure
  | .ok draft => .ok {
      draft := draft
      timeline := .start initial (limit.or preferences.timelineLimit)
      selection := initial.selection
      viewport := initial.viewport
      preferences := preferences }

def inBatch (s : Session) : Bool :=
  0 < s.openBatches

def snapshot (s : Session) : Snapshot :=
  s.draft.snapshot s.selection s.viewport

def commit (s : Session) : Session :=
  { s with timeline := s.timeline.commit s.snapshot }

/-- What follows every change: a commit, now or when the batch ends. -/
def changed (s : Session) : Session :=
  if s.inBatch then { s with changedInBatch := true } else s.commit

/-- Makes a snapshot the page being edited.  Ids handed out before stay used. -/
def restore (snapshot : Snapshot) : Action Unit := fun s =>
  match Draft.ofPage s.draft.catalog s.draft.ids snapshot.page with
  | .error failure => .error failure s
  | .ok draft => .ok () { s with
      draft := draft
      selection := snapshot.selection.filter draft.page.contains
      viewport := snapshot.viewport.orStandard }

/-- Lifts a computation that changes nothing. -/
def lift {α : Type} (result : Except Failure α) : Action α := fun s =>
  match result with
  | .ok a => .ok a s
  | .error failure => .error failure s

/-- Lifts an edit of the draft. -/
def onDraft {α : Type} (action : Draft.Action α) : Action α := fun s =>
  match action s.draft with
  | .ok a draft => .ok a { s with draft := draft }
  | .error failure draft => .error failure { s with draft := draft }

/-- Sets the selection and notes the change. -/
def settle (selection : List String) : Action Unit := fun s =>
  .ok () { s with selection := selection }.changed

end Session

end PageBuilder
