import PageBuilder.Proofs.Session.Records

/-!
# Batches that succeed

Grouping steps in a batch changes when they are committed and nothing else.  No command but those
that look at the timeline goes by anything that a batch changes (`Uniform`), so two sessions that
agree in the rest answer in the same way and agree afterwards; this carries a run inside a batch
along with the run outside (`runSteps_agrees`).  Whether a commit follows is the note of the open
batch, which says exactly whether something was changed (`changedInBatch_iff`).
-/

namespace PageBuilder.Session

open Results

variable {α β : Type} {s t u : Session}

/-! ## Sessions with the same work -/

/-- Two sessions agree in everything but the timeline and the open batches. -/
structure SameWork (s t : Session) : Prop where
  draft : s.draft = t.draft
  selection : s.selection = t.selection
  viewport : s.viewport = t.viewport
  clipboard : s.clipboard = t.clipboard
  lastSource : s.lastSource = t.lastSource
  preferences : s.preferences = t.preferences

theorem SameWork.refl (s : Session) : SameWork s s :=
  ⟨rfl, rfl, rfl, rfl, rfl, rfl⟩

theorem SameWork.symm (h : SameWork s t) : SameWork t s :=
  ⟨h.draft.symm, h.selection.symm, h.viewport.symm, h.clipboard.symm, h.lastSource.symm,
    h.preferences.symm⟩

theorem SameWork.trans (h : SameWork s t) (h' : SameWork t u) : SameWork s u :=
  ⟨h.draft.trans h'.draft, h.selection.trans h'.selection, h.viewport.trans h'.viewport,
    h.clipboard.trans h'.clipboard, h.lastSource.trans h'.lastSource,
    h.preferences.trans h'.preferences⟩

/-- What is shown is part of the work. -/
theorem SameWork.snapshot (h : SameWork s t) : s.snapshot = t.snapshot := by
  rw [Session.snapshot, Session.snapshot, h.draft, h.selection, h.viewport]

/-- To record a change is to write down in the timeline what is there already, or to make a note of
it. -/
theorem sameWork_changed (s : Session) : SameWork s.changed s := by
  unfold changed
  split <;> exact ⟨rfl, rfl, rfl, rfl, rfl, rfl⟩

/-- Opening a batch leaves the work alone. -/
theorem sameWork_enter (s : Session) : SameWork s.enter s := by
  unfold enter
  split <;> exact ⟨rfl, rfl, rfl, rfl, rfl, rfl⟩

/-- And so does closing one, whether it commits or not. -/
theorem sameWork_finish (s : Session) : SameWork s.finish s := by
  unfold finish
  split <;> exact ⟨rfl, rfl, rfl, rfl, rfl, rfl⟩

/-- Two results are the same, and the sessions agree. -/
inductive Agree : EStateM.Result Failure Session α → EStateM.Result Failure Session α → Prop
  | ok (a : α) {s t : Session} (h : SameWork s t) : Agree (.ok a s) (.ok a t)
  | error (failure : Failure) {s t : Session} (h : SameWork s t) :
      Agree (.error failure s) (.error failure t)

/-- What the action does to sessions that agree is the same. -/
def Uniform (action : Action α) : Prop :=
  ∀ s t, SameWork s t → Agree (action s) (action t)

section Parts

variable {x : Action α} {f : α → Action β}

/-- What comes second is given the same answer, and sessions that still agree. -/
theorem Uniform.bind (hx : Uniform x) (hf : ∀ a, Uniform (f a)) : Uniform (x >>= f) := by
  intro s t h
  have hagree := hx s t h
  generalize hs : x s = r, ht : x t = r' at hagree
  cases hagree with
  | ok a h' =>
    rw [bind_of_ok hs, bind_of_ok ht]
    exact hf a _ _ h'
  | error failure h' =>
    rw [bind_of_error hs, bind_of_error ht]
    exact .error failure h'

theorem Uniform.map (hx : Uniform x) (g : α → β) : Uniform (g <$> x) := by
  intro s t h
  have hagree := hx s t h
  generalize hs : x s = r, ht : x t = r' at hagree
  cases hagree with
  | ok a h' =>
    rw [map_of_ok hs, map_of_ok ht]
    exact .ok (g a) h'
  | error failure h' =>
    rw [map_of_error hs, map_of_error ht]
    exact .error failure h'

theorem uniform_pure (a : α) : Uniform (pure a) :=
  fun _ _ h => .ok a h

/-- Looking at the session is fine where the rest goes by the work alone. -/
theorem uniform_get {f : Session → Action β} (hf : ∀ {s t}, SameWork s t → f s = f t)
    (h : ∀ s, Uniform (f s)) : Uniform (get >>= f) := by
  intro s t hst
  show Agree (f s s) (f t t)
  rw [hf hst]
  exact h t s t hst

/-- A change of the work is uniform if it makes the same of the same. -/
theorem uniform_modify {f : Session → Session}
    (hf : ∀ {s t}, SameWork s t → SameWork (f s) (f t)) : Uniform (modify f) :=
  fun _ _ h => .ok () (hf h)

/-- An answer that is fixed before does not go by the session at all. -/
theorem uniform_lift (result : Except Failure α) : Uniform (lift result) := by
  intro s t h
  cases result with
  | ok a => exact .ok a h
  | error failure => exact .error failure h

/-- The draft is part of the work, so an edit of it does the same in both sessions. -/
theorem uniform_onDraft (action : Draft.Action α) : Uniform (onDraft action) := by
  intro s t h
  unfold onDraft
  rw [h.draft]
  cases action t.draft with
  | ok a draft => exact .ok a { h with draft := rfl }
  | error failure draft => exact .error failure { h with draft := rfl }

/-- Selecting something and recording a change: the one is work, and the other leaves it alone. -/
theorem uniform_settle (selection : List String) : Uniform (settle selection) := by
  intro s t h
  have hselecting : SameWork (s.selecting selection) (t.selecting selection) :=
    { h with selection := rfl }
  exact .ok () (((sameWork_changed _).trans hselecting).trans (sameWork_changed _).symm)

/-- A snapshot takes the place of what is there in both sessions. -/
theorem uniform_restore (snapshot : Snapshot) : Uniform (restore snapshot) := by
  intro s t h
  unfold restore
  rw [h.draft]
  cases Draft.ofPage t.draft.catalog t.draft.ids snapshot.page with
  | ok draft => exact .ok () { h with draft := rfl, selection := rfl, viewport := rfl }
  | error failure => exact .error failure h

end Parts

/-! ## Commands -/

/-- An edit that selects what it has made. -/
theorem uniform_make (action : Draft.Action String) (answer : String → α) : Uniform (do
    let new ← onDraft action
    settle [new]
    return answer new) := by
  refine (uniform_onDraft action).bind fun new => ?_
  exact (uniform_settle [new]).bind fun _ => uniform_pure (answer new)

theorem uniform_setViewportEntry (key : String) (value : Value) :
    Uniform (Session.setViewportEntry key value) :=
  fun _ _ h => .ok () { h with viewport := by rw [h.viewport] }

/-- A load checks the snapshot, restores it and records a change. -/
theorem uniform_load (snapshot : Snapshot) : Uniform (Session.load snapshot) := by
  refine uniform_get (fun h => by rw [h.draft]) fun s => ?_
  refine (uniform_lift _).bind fun _ => ?_
  refine (uniform_restore snapshot).bind fun _ => ?_
  exact uniform_modify fun h => ((sameWork_changed _).trans h).trans (sameWork_changed _).symm

/-- No command but those that look at the timeline goes by anything but the work. -/
theorem Command.run_uniform {command : Command} (hno : ¬ command.Travels)
    (hne : command ≠ .entries) : Uniform command.run := by
  cases command with
  | insert parent kind index props style =>
    refine Uniform.map ?_ _
    exact uniform_make (Draft.insert parent kind index props style) fun id => id
  -- These leave the selection as it is, and so look at it.
  | move | updateProps | updateStyle =>
    refine Uniform.map ?_ _
    refine (uniform_onDraft _).bind fun _ => ?_
    exact uniform_get (fun h => by rw [h.selection]) fun s => uniform_settle s.selection
  | remove id =>
    refine Uniform.map ?_ _
    refine (uniform_onDraft _).bind fun removed => ?_
    refine uniform_get (fun h => by rw [h.selection]) fun s => ?_
    exact (uniform_settle _).bind fun _ => uniform_pure removed
  | duplicate id =>
    refine Uniform.map ?_ _
    refine uniform_get (fun h => by rw [h.draft]) fun s => ?_
    refine (uniform_lift _).bind fun plan => ?_
    exact uniform_make (Draft.attach (some plan.parent) plan.nodes (some plan.index)) fun id => id
  | copy id =>
    refine Uniform.map ?_ _
    refine uniform_get (fun h => by rw [h.draft]) fun s => ?_
    refine (uniform_lift _).bind fun nodes => ?_
    exact uniform_modify fun h => { h with clipboard := rfl }
  | paste parent index =>
    refine Uniform.map ?_ _
    refine uniform_get (fun h => by rw [h.clipboard, h.draft]) fun s => ?_
    cases s.clipboard with
    | none => exact uniform_pure none
    | some nodes => exact uniform_make (Draft.attach (parent.or s.draft.page.root) nodes index) some
  | clear =>
    refine Uniform.map ?_ _
    refine uniform_get (fun h => by rw [h.draft]) fun s => ?_
    cases s.draft.page.isEmpty with
    | true => exact uniform_pure ()
    | false =>
      refine Uniform.bind ?_ fun _ => uniform_settle []
      exact (uniform_onDraft Draft.clear).map fun _ => PUnit.unit
  | load origin =>
    refine Uniform.map ?_ _
    refine uniform_get (fun h => by rw [h.draft]) fun s => ?_
    exact (uniform_lift _).bind fun snapshot => uniform_load snapshot
  | undo | redo => exact absurd trivial hno
  | entries => exact absurd rfl hne
  | select ids additive =>
    refine Uniform.map ?_ _
    intro s t h
    unfold Session.select
    rw [h.draft, h.selection]
    split
    · exact .error _ h
    · exact .ok () ⟨rfl, rfl, h.viewport, h.clipboard, h.lastSource, h.preferences⟩
  | clearSelection =>
    refine Uniform.map ?_ _
    exact fun _ _ h => .ok () { h with selection := rfl }
  | setViewport name =>
    refine Uniform.map ?_ _
    unfold Session.setViewport
    split
    · exact uniform_setViewportEntry _ _
    · exact uniform_lift _
  | setZoom percent =>
    refine Uniform.map ?_ _
    exact (uniform_lift _).bind fun n => uniform_setViewportEntry _ _
  -- Code depends on what is shown and on the preferences, both of which are work.
  | generate options =>
    refine Uniform.map ?_ _
    refine uniform_get (fun h => by rw [h.snapshot, h.preferences, h.draft]) fun s => ?_
    refine (uniform_lift _).bind fun source => ?_
    refine (uniform_modify fun h => ?_).bind fun _ => uniform_pure source
    exact { h with lastSource := rfl }
  | save =>
    refine Uniform.map ?_ _
    refine uniform_get (fun h => by rw [h.snapshot]) fun s => ?_
    refine (uniform_lift _).bind fun text => ?_
    exact (uniform_lift _).bind fun digest => uniform_pure (text, digest)
  | ask query =>
    refine uniform_get (fun h => by rw [h.draft]) fun s => ?_
    exact (uniform_lift _).bind fun finding => uniform_pure (Reply.found finding)

/-! ## Steps without batches -/

mutual

/-- Every failure is caught where it arises, and no batch is given up. -/
def Step.Calm : Step → Prop
  | .command _ escalates => escalates = false
  | .batch steps abandon escalates => escalates = false ∧ abandon = none ∧ AllCalm steps

def AllCalm : List Step → Prop
  | [] => True
  | step :: rest => step.Calm ∧ AllCalm rest

end

mutual

/-- The commands of a step in order, whatever batches they are in. -/
def Step.commands : Step → List Command
  | .command command _ => [command]
  | .batch steps _ _ => commandsOf steps

def commandsOf : List Step → List Command
  | [] => []
  | step :: rest => step.commands ++ commandsOf rest

end

/-- What came of a command, unless it lists the timeline, which a batch does change. -/
def Command.outcomes (command : Command) (report : Report) : List (Except Failure Reply) :=
  match command with
  | .entries => []
  | _ => [report.outcome]

mutual

/-- What came of the commands of a step, as it is reported. -/
def Step.outcomes : Step → Report → List (Except Failure Reply)
  | .command command _, report => command.outcomes report
  | .batch steps _ _, .mk _ _ inner => outcomesOf steps inner

def outcomesOf : List Step → List Report → List (Except Failure Reply)
  | step :: rest, report :: reports => step.outcomes report ++ outcomesOf rest reports
  | _, _ => []

end

/-- Runs commands one after the other, whatever comes of them. -/
def runCommands (s : Session) : List Command → List (Except Failure Reply) × Session
  | [] => ([], s)
  | command :: rest =>
    let report := Report.ofResult [] (command.run s)
    let (outcomes, t) := runCommands report.after rest
    (command.outcomes report ++ outcomes, t)

/-- The answers follow one another, and the second list goes on where the first has ended. -/
theorem runCommands_append (s : Session) (first rest : List Command) :
    runCommands s (first ++ rest) =
      ((runCommands s first).1 ++ (runCommands (runCommands s first).2 rest).1,
        (runCommands (runCommands s first).2 rest).2) := by
  induction first generalizing s with
  | nil => rfl
  | cons command first ih => simp only [List.cons_append, runCommands, ih, List.append_assoc]

/-- Nothing gets out of a calm step. -/
theorem Step.Calm.escalates {step : Step} (h : step.Calm) : step.escalates = false := by
  cases step with
  | command command escalates => rwa [Step.Calm] at h
  | batch steps abandon escalates =>
    rw [Step.Calm] at h
    exact h.1

theorem AllCalm.escalates {steps : List Step} (h : AllCalm steps) :
    ∀ step ∈ steps, step.escalates = false := by
  induction steps with
  | nil => simp
  | cons step rest ih =>
    rw [AllCalm] at h
    exact List.forall_mem_cons.2 ⟨h.1.escalates, ih h.2⟩

theorem Agree.ofResult {r r' : EStateM.Result Failure Session Reply} (h : Agree r r') :
    (Report.ofResult [] r).outcome = (Report.ofResult [] r').outcome ∧
      SameWork (Report.ofResult [] r).after (Report.ofResult [] r').after := by
  cases h with
  | ok a h => exact ⟨rfl, h⟩
  | error failure h => exact ⟨rfl, h⟩

/-- Listing the timeline is the one command with another answer, and it changes nothing. -/
theorem Command.run_agrees {command : Command} (hno : ¬ command.Travels) (h : SameWork s t) :
    command.outcomes (Report.ofResult [] (command.run s)) =
        command.outcomes (Report.ofResult [] (command.run t)) ∧
      SameWork (Report.ofResult [] (command.run s)).after
        (Report.ofResult [] (command.run t)).after := by
  by_cases he : command = .entries
  · subst he
    exact ⟨rfl, h⟩
  · obtain ⟨houtcome, hafter⟩ := (Command.run_uniform hno he s t h).ofResult
    exact ⟨by simp only [Command.outcomes, houtcome], hafter⟩

/-- A batch that ends well answers what its steps have answered. -/
theorem sameWork_leave {α : Type} (s t : Session) (a : α) :
    ∃ u, s.leave (.ok a t) = .ok a u ∧ SameWork u t := by
  unfold leave
  cases s.inBatch with
  | true => exact ⟨_, rfl, ⟨rfl, rfl, rfl, rfl, rfl, rfl⟩⟩
  | false => exact ⟨t.finish, rfl, sameWork_finish t⟩

mutual

/-- A calm step does what its commands do one by one. -/
theorem Step.run_agrees : ∀ {step : Step} {s t : Session}, step.Calm →
    (∀ command ∈ step.commands, ¬ command.Travels) → SameWork s t →
      step.outcomes (step.run s) = (runCommands t step.commands).1 ∧
        SameWork (step.run s).after (runCommands t step.commands).2
  | .command command _, s, t, _, hno, h => by
    rw [Step.commands] at hno ⊢
    obtain ⟨houtcomes, hafter⟩ := Command.run_agrees (hno command List.mem_cons_self) h
    rw [Step.run, Step.outcomes, runCommands, runCommands]
    exact ⟨houtcomes.trans (List.append_nil _).symm, hafter⟩
  | .batch steps abandon escalates, s, t, hcalm, hno, h => by
    rw [Step.Calm] at hcalm
    obtain ⟨-, rfl, hsteps⟩ := hcalm
    rw [Step.commands] at hno ⊢
    obtain ⟨u, hu, houtcomes, hwork⟩ :=
      runSteps_agrees hsteps hno ((sameWork_enter s).trans h)
    obtain ⟨v, hleave, hv⟩ := sameWork_leave s u Reply.done
    have hrun : (Step.batch steps none escalates).run s =
        .mk (.ok .done) v (runSteps s.enter steps).reports := by
      rw [Step.run, hu, conclude, hleave]
      rfl
    rw [hrun, Step.outcomes]
    exact ⟨houtcomes, hv.trans hwork⟩

/-- Calm steps run to their end, and do what their commands do one by one. -/
theorem runSteps_agrees : ∀ {steps : List Step} {s t : Session}, AllCalm steps →
    (∀ command ∈ commandsOf steps, ¬ command.Travels) → SameWork s t →
      ∃ u, (runSteps s steps).result = .ok () u ∧
        outcomesOf steps (runSteps s steps).reports = (runCommands t (commandsOf steps)).1 ∧
          SameWork u (runCommands t (commandsOf steps)).2
  | [], s, t, _, _, h => by
    rw [runSteps, commandsOf, runCommands]
    exact ⟨s, rfl, by simp [outcomesOf], h⟩
  | step :: rest, s, t, hcalm, hno, h => by
    rw [AllCalm] at hcalm
    rw [commandsOf] at hno ⊢
    obtain ⟨hfirst, hrest⟩ := List.forall_mem_append.1 hno
    obtain ⟨houtcomes, hafter⟩ := Step.run_agrees hcalm.1 hfirst h
    obtain ⟨u, hu, houtcomes', hwork⟩ := runSteps_agrees hcalm.2 hrest hafter
    have hgo := passedOn_eq_none hcalm.1.escalates (step.run s)
    simp only [runSteps, hgo, outcomesOf, runCommands_append]
    exact ⟨u, hu, by rw [houtcomes, houtcomes'], hwork⟩

end

/-! ## Whether something changes -/

/-- Some command that is called in the steps has a change to commit and is carried out. -/
def Mutates (s : Session) (steps : List Step) : Prop :=
  ∃ t command escalates reply, Calls s steps t (.command command escalates) ∧
    command.Commits t ∧ ((Step.command command escalates).run t).outcome = .ok reply

/-- Nothing is called in no steps. -/
theorem not_mutates_nil (s : Session) : ¬ Mutates s [] := by
  rintro ⟨t, command, escalates, reply, hcall, -⟩
  cases hcall

/-- Of a command and the steps after it, the command changes something or one of the steps does. -/
theorem mutates_command_iff {command : Command} {escalates : Bool} {rest : List Step}
    (hgo : ((Step.command command escalates).run s).passedOn escalates = none) :
    Mutates s (.command command escalates :: rest) ↔
      (command.Commits s ∧
        ∃ reply, ((Step.command command escalates).run s).outcome = .ok reply) ∨
      Mutates ((Step.command command escalates).run s).after rest := by
  constructor
  · rintro ⟨t, c, e, reply, hcall, hc, hok⟩
    cases hcall with
    | first => exact Or.inl ⟨hc, reply, hok⟩
    | later _ hcall => exact Or.inr ⟨t, c, e, reply, hcall, hc, hok⟩
  · rintro (⟨hc, reply, hok⟩ | ⟨t, c, e, reply, hcall, hc, hok⟩)
    · exact ⟨s, command, escalates, reply, .first s _ rest, hc, hok⟩
    · exact ⟨t, c, e, reply, .later hgo hcall, hc, hok⟩

/-- Of a batch, one of the steps inside or one of those after it. -/
theorem mutates_batch_iff {steps rest : List Step} {abandon : Option String} {escalates : Bool}
    (hgo : ((Step.batch steps abandon escalates).run s).passedOn escalates = none) :
    Mutates s (.batch steps abandon escalates :: rest) ↔
      Mutates s.enter steps ∨ Mutates ((Step.batch steps abandon escalates).run s).after rest := by
  constructor
  · rintro ⟨t, c, e, reply, hcall, hc, hok⟩
    cases hcall with
    | later _ hcall => exact Or.inr ⟨t, c, e, reply, hcall, hc, hok⟩
    | inside hcall => exact Or.inl ⟨t, c, e, reply, hcall, hc, hok⟩
  · rintro (⟨t, c, e, reply, hcall, hc, hok⟩ | ⟨t, c, e, reply, hcall, hc, hok⟩)
    · exact ⟨t, c, e, reply, .inside hcall, hc, hok⟩
    · exact ⟨t, c, e, reply, .later hgo hcall, hc, hok⟩

/-- A command that commits makes the note if it is carried out; no other command touches it. -/
theorem changedInBatch_command (hb : s.inBatch = true) {command : Command}
    (hno : ¬ command.Travels) (escalates : Bool) :
    ((Step.command command escalates).run s).after.changedInBatch = true ↔
      s.changedInBatch = true ∨ command.Commits s ∧
        ∃ reply, ((Step.command command escalates).run s).outcome = .ok reply := by
  rw [Step.run]
  by_cases hc : command.Commits s
  · have hrecorded := Command.run_recorded hc
    cases hr : command.run s with
    | ok reply t =>
      rw [hr] at hrecorded
      obtain ⟨u, hu, rfl⟩ := hrecorded
      have hopen : u.inBatch = true := (inBatch_congr hu.openBatches).trans hb
      simp [Report.ofResult, Report.outcome, Report.after, changed, hopen, hc]
    | error failure t =>
      rw [hr] at hrecorded
      have hkept : t.changedInBatch = s.changedInBatch := Proceeds.changedInBatch hrecorded
      simp [Report.ofResult, Report.outcome, Report.after, hkept]
  · rw [after_ofResult_eq, (Command.run_proceeds hc hno).changedInBatch]
    simp [hc]

/-- In a batch the note says after a run whether something has changed. -/
theorem changedInBatch_iff : ∀ {steps : List Step} {s t : Session}, s.inBatch = true →
    AllCalm steps → (∀ command ∈ commandsOf steps, ¬ command.Travels) →
      (runSteps s steps).result = .ok () t →
        (t.changedInBatch = true ↔ s.changedInBatch = true ∨ Mutates s steps)
  | [], s, t, _, _, _, h => by
    rw [runSteps] at h
    cases h
    simp [not_mutates_nil]
  | step :: rest, s, t, hb, hcalm, hno, h => by
    rw [AllCalm] at hcalm
    rw [commandsOf] at hno
    obtain ⟨hfirst, hrest⟩ := List.forall_mem_append.1 hno
    have hgo := passedOn_eq_none hcalm.1.escalates (step.run s)
    simp only [runSteps, hgo] at h
    have hin := (Step.run_retains s step).inBatch.trans hb
    rw [changedInBatch_iff hin hcalm.2 hrest h]
    cases step with
    | command command escalates =>
      rw [Step.commands, List.forall_mem_singleton] at hfirst
      rw [changedInBatch_command hb hfirst, mutates_command_iff hgo, or_assoc]
    | batch steps abandon escalates =>
      rw [Step.Calm] at hcalm
      obtain ⟨⟨-, rfl, hsteps⟩, -⟩ := hcalm
      rw [Step.commands] at hfirst
      obtain ⟨u, hu⟩ : ∃ u, (runSteps s.enter steps).result = .ok () u :=
        exists_end hsteps.escalates
      -- An inner batch neither forgets the note when it opens nor when it ends.
      have henter : s.enter.changedInBatch = s.changedInBatch := by rw [enter, if_pos hb]
      have hafter : ((Step.batch steps none escalates).run s).after.changedInBatch =
          u.changedInBatch := by
        rw [Step.run, after_ofResult_eq, stateOf_leave_inner hb, stateOf_conclude, hu]
        rfl
      rw [hafter, changedInBatch_iff (inBatch_enter s) hsteps hfirst hu, henter,
        mutates_batch_iff hgo, or_assoc]

/-- The end of the outermost batch commits once if the note says so. -/
theorem timeline_finish (t : Session) :
    (t.changedInBatch = true → t.finish.timeline = t.timeline.commit t.finish.snapshot) ∧
      (t.changedInBatch = false → t.finish.timeline = t.timeline) := by
  unfold finish
  constructor
  · intro h
    rw [if_pos h]
    rfl
  · intro h
    rw [h]
    rfl

/-- The same commands in a batch, grouped further in whatever way, and without it: every command
answers or is rejected in the same way, the sessions agree afterwards, and the batch commits
its end once, if something has changed in it.  The session may be any that is in no batch. -/
theorem batch_agrees (hb : s.inBatch = false) {steps direct : List Step} (escalates : Bool)
    (hcalm : AllCalm steps) (hdirect : AllCalm direct)
    (hsame : commandsOf direct = commandsOf steps)
    (hno : ∀ command ∈ commandsOf steps, ¬ command.Travels) :
    ∃ inside outside reports,
      (Step.batch steps none escalates).run s = .mk (.ok .done) inside reports ∧
      (runSteps s direct).result = .ok () outside ∧
      outcomesOf steps reports = outcomesOf direct (runSteps s direct).reports ∧
      SameWork inside outside ∧ inside.inBatch = false ∧
      (Mutates s.enter steps → inside.timeline = s.timeline.commit inside.snapshot) ∧
      (¬ Mutates s.enter steps → inside.timeline = s.timeline) := by
  obtain ⟨t, ht, houtcomes, hwork⟩ := runSteps_agrees hcalm hno (sameWork_enter s)
  obtain ⟨outside, hu, houtcomes', hwork'⟩ :=
    runSteps_agrees hdirect (hsame ▸ hno) (SameWork.refl s)
  rw [hsame] at houtcomes' hwork'
  have hretains := runSteps_retains s.enter steps
  rw [ht] at hretains
  have htimeline : t.timeline = s.timeline :=
    (hretains.timeline (inBatch_enter s)).trans (timeline_enter s)
  have hopened : s.enter.changedInBatch = false := by simp [enter, hb]
  have hnote := changedInBatch_iff (inBatch_enter s) hcalm hno ht
  rw [hopened] at hnote
  obtain ⟨hcommit, hkeep⟩ := timeline_finish t
  -- Both runs are compared with the commands one by one, and so with each other.
  refine ⟨t.finish, outside, (runSteps s.enter steps).reports, ?_, hu,
    houtcomes.trans houtcomes'.symm, ?_, ?_, ?_, ?_⟩
  · simp only [Step.run, ht, conclude, leave, hb, Bool.false_eq_true, if_false]
    rfl
  · exact (sameWork_finish t).trans (hwork.trans hwork'.symm)
  · unfold finish inBatch
    split <;> rfl
  · intro hm
    rw [hcommit (hnote.2 (Or.inr hm)), htimeline]
  · intro hm
    rw [hkeep (by simpa using fun h => hm ((hnote.1 h).resolve_left (by simp))), htimeline]

/-- A rejected update, a selection and a paste in inner batches, in a session that starts empty. -/
theorem batch_agrees_nested :
    let steps : List Step := [
      .batch [.command (.insert none "container" none .empty .empty) false,
        .command (.updateProps "el_9" .empty) false] none false,
      .command (.copy "el_1") false,
      .batch [.batch [.command (.select ["el_1"] false) false] none false,
        .command (.paste none (some 0)) false] none false]
    let direct : List Step := (commandsOf steps).map fun command => .command command false
    ∃ start inside outside reports, Session.start .builtIn .empty (some 2) {} = .ok start ∧
      (Step.batch steps none true).run start = .mk (.ok .done) inside reports ∧
      (runSteps start direct).result = .ok () outside ∧
      outcomesOf steps reports = outcomesOf direct (runSteps start direct).reports ∧
      SameWork inside outside ∧ inside.inBatch = false ∧
      (Mutates start.enter steps → inside.timeline = start.timeline.commit inside.snapshot) ∧
      (¬ Mutates start.enter steps → inside.timeline = start.timeline) := by
  intro steps direct
  obtain ⟨start, hstart⟩ : ∃ start, Session.start .builtIn .empty (some 2) {} = .ok start :=
    ⟨_, rfl⟩
  have hb : start.inBatch = false := by
    cases hstart
    rfl
  have hcommands : commandsOf direct = commandsOf steps := by
    simp [direct, steps, commandsOf, Step.commands]
  obtain ⟨inside, outside, reports, h⟩ := @batch_agrees start hb steps direct true
    (by simp [steps, AllCalm, Step.Calm])
    (by simp [direct, steps, commandsOf, Step.commands, AllCalm, Step.Calm]) hcommands
    (by simp [steps, commandsOf, Step.commands, Command.Travels])
  exact ⟨start, inside, outside, reports, hstart, h⟩

/-! ## Whatever comes of the steps -/

/-- Undo and redo are refused inside a batch. -/
theorem Command.Travels.refused {command : Command} (h : command.Travels) (hb : s.inBatch = true) :
    stateOf (command.run s) = s := by
  have hrefused (name : String) (f : Unit → Action Snapshot) :
      stateOf ((outsideBatch name >>= f) s) = s := by
    have herror : outsideBatch name s = .error (.batchOpen name) s := by simp [outsideBatch, hb]
    rw [bind_of_error herror]
    rfl
  cases command with
  | undo | redo =>
    rw [Command.run, stateOf_map]
    exact hrefused _ _
  | _ => exact h.elim

mutual

/-- Whatever is done inside a batch, the note that something has changed stays. -/
theorem Step.run_noted : ∀ {s : Session} (step : Step), s.inBatch = true →
    s.changedInBatch = true → (step.run s).after.changedInBatch = true
  | s, .command command escalates, hb, hnote => by
    by_cases ht : command.Travels
    · rw [Step.run, after_ofResult_eq, ht.refused hb]
      exact hnote
    · exact (changedInBatch_command hb ht escalates).2 (Or.inl hnote)
  | s, .batch steps abandon _, hb, hnote => by
    have henter : s.enter.changedInBatch = true := by
      rw [enter, if_pos hb]
      exact hnote
    have hsteps := runSteps_noted steps (inBatch_enter s) henter
    rw [Step.run, after_ofResult_eq, stateOf_leave_inner hb, stateOf_conclude]
    exact hsteps

theorem runSteps_noted : ∀ {s : Session} (steps : List Step), s.inBatch = true →
    s.changedInBatch = true → (stateOf (runSteps s steps).result).changedInBatch = true
  | s, [], _, hnote => by
    rw [runSteps]
    exact hnote
  | s, step :: rest, hb, hnote => by
    have hfirst := Step.run_noted step hb hnote
    have hin := (Step.run_retains s step).inBatch.trans hb
    rw [runSteps]
    cases (step.run s).passedOn step.escalates with
    | some failure => exact hfirst
    | none => exact runSteps_noted rest hin hfirst

end

/-- What is called in a batch is called while it is open. -/
theorem Calls.inBatch {steps : List Step} {call : Step} (h : Calls s steps t call)
    (hb : s.inBatch = true) : t.inBatch = true := by
  induction h with
  | first s step rest => exact hb
  | later hgo hcall ih => exact ih ((Step.run_retains _ _).inBatch.trans hb)
  | inside hcall ih => exact ih (inBatch_enter _)

/-- The steps after a step, whether they are run or not. -/
theorem runSteps_noted_rest (hb : s.inBatch = true) {step : Step} (rest : List Step)
    (hnote : (step.run s).after.changedInBatch = true) :
    (stateOf (runSteps s (step :: rest)).result).changedInBatch = true := by
  have hin := (Step.run_retains s step).inBatch.trans hb
  rw [runSteps]
  cases (step.run s).passedOn step.escalates with
  | some failure => exact hnote
  | none => exact runSteps_noted rest hin hnote

/-- A note that is made by a call is there at the end of the run. -/
theorem Calls.noted {steps : List Step} {call : Step} (h : Calls s steps t call)
    (hb : s.inBatch = true) (hnote : (call.run t).after.changedInBatch = true) :
    (stateOf (runSteps s steps).result).changedInBatch = true := by
  induction h with
  | first s step rest => exact runSteps_noted_rest hb rest hnote
  -- A later call: the steps before it have not ended the run, and the batch is still open.
  | @later s t step call rest hgo hcall ih =>
    have hrest := ih ((Step.run_retains s step).inBatch.trans hb) hnote
    rw [runSteps]
    simp only [hgo]
    exact hrest
  | @inside s t steps rest abandon escalates call hcall ih =>
    have hsteps := ih (inBatch_enter s) hnote
    apply runSteps_noted_rest hb
    rw [Step.run, after_ofResult_eq, stateOf_leave_inner hb, stateOf_conclude]
    exact hsteps

/-- So a batch in which something has changed knows of it when it ends. -/
theorem Mutates.noted {steps : List Step} (h : Mutates s steps) (hb : s.inBatch = true) :
    (stateOf (runSteps s steps).result).changedInBatch = true := by
  obtain ⟨t, command, escalates, reply, hcall, hc, hok⟩ := h
  have hno : ¬ command.Travels := fun ht => ht.not_commits t hc
  apply hcall.noted hb
  exact (changedInBatch_command (hcall.inBatch hb) hno escalates).2 (Or.inr ⟨hc, reply, hok⟩)

/-- The outermost batch commits its end once, if some command in it has changed something. -/
theorem Mutates.committed {steps : List Step} {abandon : Option String} {escalates : Bool}
    {reply : Reply} (h : Mutates s.enter steps) (hb : s.inBatch = false)
    (hok : ((Step.batch steps abandon escalates).run s).outcome = .ok reply) :
    ((Step.batch steps abandon escalates).run s).after.timeline =
      s.timeline.commit ((Step.batch steps abandon escalates).run s).after.snapshot := by
  have hnote := h.noted (inBatch_enter s)
  have htimeline := (runSteps_retains s.enter steps).timeline (inBatch_enter s)
  rw [timeline_enter] at htimeline
  rw [← stateOf_conclude abandon] at hnote htimeline
  rw [Step.run] at hok ⊢
  cases hr : conclude abandon (runSteps s.enter steps).result with
  | ok a t =>
    rw [hr] at hnote htimeline
    simp only [leave, hb, Bool.false_eq_true, if_false, Report.ofResult, Report.after]
    rw [(timeline_finish t).1 hnote]
    exact congrArg (Timeline.commit · t.finish.snapshot) htimeline
  | error failure t =>
    rw [hr] at hok
    simp only [leave, hb, Bool.false_eq_true, if_false] at hok
    split at hok <;> cases hok

end PageBuilder.Session
