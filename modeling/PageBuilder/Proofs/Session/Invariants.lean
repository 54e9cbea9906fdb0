import PageBuilder.Proofs.Session.Batches

/-!
# Invariants of sessions

A property of sessions that every move of a command keeps, and the opening and the end of every
batch, holds of every session that a run comes to, at whatever depth of batches
(`Invariant.calls`).  What an invariant has to be shown of are single moves; the induction over the
steps is made here, once.
-/

namespace PageBuilder.Session

open Results

/-- A property of sessions that a run keeps, as long as what it loads is keyed. -/
structure Invariant (good : Session → Prop) : Prop where
  move : ∀ {s t : Session} {command : Command}, command.LoadsKeyed → good s → Move s command t →
    good t
  enter : ∀ {s : Session}, good s → good s.enter
  /-- The count of open batches does not matter. -/
  closed : ∀ {s : Session} (n : Nat), good s → good { s with openBatches := n }
  commit : ∀ {s : Session}, good s → good s.commit
  /-- What was shown when a batch was opened may come back. -/
  restore : ∀ {s u : Session}, good s → good u → good (stateOf (restore s.snapshot u))

namespace Invariant

variable {good : Session → Prop} {s t : Session}

theorem command (h : Invariant good) {command : Command} (hload : command.LoadsKeyed)
    (hs : good s) : good (stateOf (command.run s)) :=
  h.move hload hs (command.run_moves s)

mutual

theorem step (h : Invariant good) : ∀ {s : Session} {step : Step}, step.LoadsKeyed → good s →
    good (step.run s).after
  | s, .command command _, hload, hs => by
    rw [Step.LoadsKeyed] at hload
    rw [Step.run, after_ofResult_eq]
    exact h.command hload hs
  | s, .batch steps abandon _, hload, hs => by
    rw [Step.LoadsKeyed] at hload
    rw [Step.run, after_ofResult_eq]
    have hsteps := h.steps hload (h.enter hs)
    rw [← stateOf_conclude abandon] at hsteps
    exact stateOf_leave (fun n => h.closed n hsteps) h.commit fun hu => h.restore hs hu

theorem steps (h : Invariant good) : ∀ {s : Session} {steps : List Step}, LoadKeyed steps →
    good s → good (stateOf (runSteps s steps).result)
  | s, [], _, hs => by
    rw [runSteps]
    exact hs
  | s, first :: rest, hload, hs => by
    rw [LoadKeyed] at hload
    have hfirst := h.step hload.1 hs
    rw [runSteps]
    cases (first.run s).passedOn first.escalates with
    | some failure => exact hfirst
    | none => exact h.steps hload.2 hfirst

end

theorem commands (h : Invariant good) {commands : List Command}
    (hload : ∀ command ∈ commands, command.LoadsKeyed) (hs : good s) :
    good (runCommands s commands).2 := by
  induction commands generalizing s with
  | nil => exact hs
  | cons command rest ih =>
    obtain ⟨hcommand, hrest⟩ := List.forall_mem_cons.1 hload
    rw [runCommands]
    apply ih hrest
    rw [after_ofResult_eq]
    exact h.command hcommand hs

/-- It holds wherever a run runs a step. -/
theorem calls (h : Invariant good) {steps : List Step} {call : Step}
    (hcall : Calls s steps t call) (hload : LoadKeyed steps) (hs : good s) : good t := by
  induction hcall with
  | first s step rest => exact hs
  | later hgo hcall ih => exact ih hload.2 (h.step hload.1 hs)
  | inside hcall ih => exact ih hload.1 (h.enter hs)

end Invariant

end PageBuilder.Session
