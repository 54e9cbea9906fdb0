import PageBuilder.Proofs.Session.Runs

/-!
# What calls record

Nothing here asks for a page that is a tree: it is what every session keeps, also one started from
a page that never passed the checks.  A command that has no change to commit goes on without a
record (`Proceeds`); one that has goes on in the same way and then records the change, in the
timeline or in the note of the open batch (`Recorded`).  In both cases the source of ids does not
go back.
-/

namespace PageBuilder.Session

open Results

variable {α β : Type} {s t : Session}

/-- A session that has gone on without recording anything. -/
structure Proceeds (s t : Session) : Prop where
  timeline : t.timeline = s.timeline
  openBatches : t.openBatches = s.openBatches
  changedInBatch : t.changedInBatch = s.changedInBatch
  draft : Draft.Advances s.draft t.draft

theorem Proceeds.refl (s : Session) : Proceeds s s :=
  ⟨rfl, rfl, rfl, .refl s.draft⟩

/-- A result with a change that has been recorded; no failure has a record. -/
def Recorded (s : Session) : EStateM.Result Failure Session α → Prop
  | .ok _ t => ∃ u, Proceeds s u ∧ t = u.changed
  | .error _ t => Proceeds s t

theorem proceeds_restore (snapshot : Snapshot) (s : Session) :
    Proceeds s (stateOf (restore snapshot s)) := by
  unfold restore
  split
  · exact .refl s
  · rename_i draft hdraft
    exact ⟨rfl, rfl, rfl, Draft.ofPage_advances hdraft⟩

/-! ## Commands -/

theorem Command.run_recorded {command : Command} (h : command.Commits s) :
    Recorded s (command.run s) := by
  have houtcome := command.run_outcome s
  generalize command.run s = result at houtcome ⊢
  cases houtcome with
  | declined => exact Proceeds.refl s
  | halted _ hrun => exact ⟨rfl, rfl, rfl, (Draft.Edit.grows_of_failed hrun).advances⟩
  | @edited _ _ _ after _ _ hrun selection =>
    have hgrows := Draft.Edit.grows_of_run hrun
    exact ⟨(s.withDraft after).selecting selection, ⟨rfl, rfl, rfl, hgrows.advances⟩, rfl⟩
  | @loaded _ snapshot draft _ _ hdraft =>
    exact ⟨s.restored snapshot draft, ⟨rfl, rfl, rfl, Draft.ofPage_advances hdraft⟩, rfl⟩
  | travelled ht => exact absurd h (ht.not_commits s)
  | beside hc => exact absurd h hc

theorem Command.run_proceeds {command : Command} (h : ¬ command.Commits s)
    (ht : ¬ command.Travels) : Proceeds s (stateOf (command.run s)) := by
  have haside := (command.run_moves s).aside h ht
  exact ⟨haside.timeline, haside.openBatches, haside.changedInBatch, haside.draft ▸ .refl s.draft⟩

/-! ## What every step keeps -/

/-- The session after a call: as many batches are open, the timeline of an open batch is what it
was, and the source of ids has not gone back. -/
structure Retains (s t : Session) : Prop where
  openBatches : t.openBatches = s.openBatches
  timeline : s.inBatch = true → t.timeline = s.timeline
  draft : Draft.Advances s.draft t.draft

theorem Retains.refl (s : Session) : Retains s s :=
  ⟨rfl, fun _ => rfl, .refl s.draft⟩

theorem Retains.inBatch (h : Retains s t) : t.inBatch = s.inBatch :=
  inBatch_congr h.openBatches

theorem Retains.trans {u : Session} (h : Retains s t) (h' : Retains t u) : Retains s u where
  openBatches := h'.openBatches.trans h.openBatches
  timeline hb := (h'.timeline (h.inBatch.trans hb)).trans (h.timeline hb)
  draft := h.draft.trans h'.draft

theorem Proceeds.retains (h : Proceeds s t) : Retains s t :=
  ⟨h.openBatches, fun _ => h.timeline, h.draft⟩

theorem retains_changed (s : Session) : Retains s s.changed := by
  refine ⟨openBatches_changed s, fun hb => ?_, ?_⟩
  · rw [changed, if_pos hb]
  · unfold changed
    split <;> exact .refl s.draft

theorem Recorded.retains {r : EStateM.Result Failure Session α} (h : Recorded s r) :
    Retains s (stateOf r) := by
  cases r with
  | ok a t =>
    obtain ⟨u, hu, rfl⟩ := h
    exact hu.retains.trans (retains_changed u)
  | error failure t => exact Proceeds.retains h

theorem retains_travel (hb : s.inBatch = false) (timeline : Timeline Snapshot) :
    Retains s (stateOf (travel timeline s)) := by
  have h := proceeds_restore timeline.present { s with timeline := timeline }
  rw [← stateOf_travel] at h
  exact ⟨h.openBatches, fun hin => absurd (hin.symm.trans hb) (by simp), h.draft⟩

theorem Command.run_retains (command : Command) (s : Session) :
    Retains s (stateOf (command.run s)) := by
  by_cases hc : command.Commits s
  · exact (Command.run_recorded hc).retains
  by_cases ht : command.Travels
  · have houtcome := command.run_outcome s
    generalize command.run s = result at houtcome ⊢
    cases houtcome with
    | declined => exact .refl s
    | halted hedit | edited hedit => exact absurd (commits_of_edit hedit) hc
    | loaded => exact absurd trivial hc
    | @travelled _ timeline _ hclosed =>
      rw [stateOf_map]
      exact retains_travel hclosed timeline
    | beside _ hno => exact absurd ht hno
  · exact (Command.run_proceeds hc ht).retains

/-! ## Batches -/

theorem openBatches_eq_zero (hb : s.inBatch = false) : s.openBatches = 0 := by
  simpa [inBatch] using hb

theorem advances_enter (s : Session) : Draft.Advances s.draft s.enter.draft := by
  unfold enter
  split <;> exact .refl s.draft

theorem openBatches_enter (hb : s.inBatch = true) : s.enter.openBatches = s.openBatches + 1 := by
  rw [enter, if_pos hb]

theorem stateOf_leave_inner (hb : s.inBatch = true) (r : EStateM.Result Failure Session α) :
    stateOf (s.leave r) = { stateOf r with openBatches := (stateOf r).openBatches - 1 } := by
  cases r <;> simp [leave, hb, stateOf]

theorem openBatches_leave_outer (hb : s.inBatch = false) (r : EStateM.Result Failure Session α) :
    (stateOf (s.leave r)).openBatches = 0 := by
  cases r with
  | ok a t =>
    simp only [leave, hb, Bool.false_eq_true, if_false, finish]
    split <;> rfl
  | error failure t =>
    have hrestore := proceeds_restore s.snapshot { t with openBatches := 0 }
    simp only [leave, hb, Bool.false_eq_true, if_false]
    split
    all_goals
      rename_i hr
      rw [hr] at hrestore
      exact hrestore.openBatches

/-- A batch ends in the state of its steps but for the count of open batches, perhaps committed, or
with the snapshot from before restored in it. -/
theorem stateOf_leave {good : Session → Prop} {opened : Session}
    {result : EStateM.Result Failure Session α}
    (hclosed : ∀ n, good { stateOf result with openBatches := n })
    (hcommit : ∀ {u : Session}, good u → good u.commit)
    (hrestore : ∀ {u : Session}, good u → good (stateOf (restore opened.snapshot u))) :
    good (stateOf (opened.leave result)) := by
  cases hb : opened.inBatch with
  | true =>
    cases result <;> simp only [leave, hb, if_true] <;> exact hclosed _
  | false =>
    cases result with
    | ok a t =>
      have hdone : good { t with openBatches := 0 } := hclosed 0
      simp only [leave, hb, Bool.false_eq_true, if_false, stateOf, finish]
      split
      · exact hcommit hdone
      · exact hdone
    | error failure t =>
      have hrestored := hrestore (hclosed 0)
      simp only [leave, hb, Bool.false_eq_true, if_false]
      split
      all_goals
        rename_i hr
        rw [stateOf, hr] at hrestored
        exact hrestored

/-- Ids that were handed out in a batch stay used, also when the batch is undone. -/
theorem advances_leave (s : Session) (r : EStateM.Result Failure Session α) :
    Draft.Advances (stateOf r).draft (stateOf (s.leave r)).draft := by
  apply @stateOf_leave _ fun t => Draft.Advances (stateOf r).draft t.draft
  case hclosed => exact fun _ => .refl (stateOf r).draft
  case hcommit => exact fun hu => hu
  case hrestore => exact fun hu => hu.trans (proceeds_restore s.snapshot _).draft

theorem retains_leave {r : EStateM.Result Failure Session α} (h : Retains s.enter (stateOf r)) :
    Retains s (stateOf (s.leave r)) := by
  have hdraft := ((advances_enter s).trans h.draft).trans (advances_leave s r)
  cases hb : s.inBatch with
  | true =>
    have hopen := h.openBatches.trans (openBatches_enter hb)
    have htimeline := (h.timeline (inBatch_enter s)).trans (timeline_enter s)
    rw [stateOf_leave_inner hb] at hdraft ⊢
    exact ⟨by simp [hopen], fun _ => htimeline, hdraft⟩
  | false =>
    refine ⟨?_, fun hin => absurd (hin.symm.trans hb) (by simp), hdraft⟩
    rw [openBatches_leave_outer hb, openBatches_eq_zero hb]

theorem stateOf_conclude (abandon : Option String)
    (r : EStateM.Result Failure Session Unit) : stateOf (conclude abandon r) = stateOf r := by
  cases r with
  | ok _ t => cases abandon <;> rfl
  | error failure t => rfl

/-! ## Steps -/

theorem after_ofResult_eq (inner : List Report) (r : EStateM.Result Failure Session Reply) :
    (Report.ofResult inner r).after = stateOf r := by
  cases r <;> rfl

mutual

theorem Step.run_retains (s : Session) : ∀ step : Step, Retains s (step.run s).after
  | .command command _ => by
    rw [Step.run, after_ofResult_eq]
    exact command.run_retains s
  | .batch steps abandon _ => by
    rw [Step.run, after_ofResult_eq]
    apply retains_leave
    rw [stateOf_conclude]
    exact runSteps_retains s.enter steps

theorem runSteps_retains (s : Session) : ∀ steps : List Step,
    Retains s (stateOf (runSteps s steps).result)
  | [] => by
    rw [runSteps]
    exact .refl s
  | step :: rest => by
    have hfirst := Step.run_retains s step
    rw [runSteps]
    cases (step.run s).passedOn step.escalates with
    | some failure => exact hfirst
    | none => exact hfirst.trans (runSteps_retains (step.run s).after rest)

end

theorem passedOn_eq_none {step : Step} (h : step.escalates = false) (report : Report) :
    report.passedOn step.escalates = none := by
  rw [h, Report.passedOn]
  split <;> rfl

/-- Steps that pass no failure on are all run. -/
theorem exists_end {steps : List Step} (h : ∀ step ∈ steps, step.escalates = false) :
    ∃ t, (runSteps s steps).result = .ok () t := by
  induction steps generalizing s with
  | nil => exact ⟨s, by rw [runSteps]⟩
  | cons step rest ih =>
    obtain ⟨t, ht⟩ := @ih (step.run s).after fun x hx => h x (List.mem_cons_of_mem _ hx)
    exact ⟨t, by simp only [runSteps, passedOn_eq_none (h step List.mem_cons_self), ht]⟩

/-- However deep in batches a call is made, and whatever failed before: the source of ids has not
gone back. -/
theorem Calls.advances {steps : List Step} {call : Step} (h : Calls s steps t call) :
    Draft.Advances s.draft t.draft := by
  induction h with
  | first s step rest => exact .refl s.draft
  | later hgo hcall ih => exact (Step.run_retains _ _).draft.trans ih
  | inside hcall ih => exact (advances_enter _).trans ih

theorem advances_batch (s : Session) (steps : List Step) (abandon : Option String)
    (escalates : Bool) : Draft.Advances (stateOf (runSteps s.enter steps).result).draft
      ((Step.batch steps abandon escalates).run s).after.draft := by
  rw [Step.run, after_ofResult_eq, ← stateOf_conclude abandon]
  exact advances_leave s _

theorem advances_rest (s : Session) (step : Step) (rest : List Step) :
    Draft.Advances (step.run s).after.draft (stateOf (runSteps s (step :: rest)).result).draft := by
  rw [runSteps]
  cases (step.run s).passedOn step.escalates with
  | some failure => exact .refl (step.run s).after.draft
  | none => exact (runSteps_retains (step.run s).after rest).draft

/-- Nor does it go back from a call to the end of the run. -/
theorem Calls.advances_end {steps : List Step} {call : Step} (h : Calls s steps t call) :
    Draft.Advances (call.run t).after.draft (stateOf (runSteps s steps).result).draft := by
  induction h with
  | first s step rest => exact advances_rest s step rest
  | later hgo hcall ih =>
    rw [runSteps]
    simp only [hgo]
    exact ih
  | inside hcall ih =>
    exact (ih.trans (advances_batch _ _ _ _)).trans (advances_rest _ _ _)

end PageBuilder.Session
