import PageBuilder.Proofs.Archive.Keys
import PageBuilder.Proofs.Draft.Atomic
import PageBuilder.Proofs.Session.Coupled

/-!
# Whole sessions

Every command either changes the page and is committed, travels along the timeline, or leaves
both alone (`Command.run_cases`).  Steps are put together from commands by batches, and a batch is
undone, committed once or not at all (`Step.run_follows`).  `timeline_of_calls` says for every
call in a whole run, however deep in batches it is made, what it does to the timeline.
-/

namespace PageBuilder.Session

open Page

variable {s t : Session}

/-! ## Commands -/

/-- A snapshot that is handed over to be loaded has its elements stored under their own ids. -/
def Command.LoadsKeyed : Command → Prop
  | .load (.snapshot given) => given.page.Keyed
  | _ => True

theorem keyed_of_origin {origin : Origin} (h : (Command.load origin).LoadsKeyed)
    {catalog : Catalog} {snapshot : Snapshot} (hread : origin.read catalog = .ok snapshot) :
    snapshot.page.Keyed := by
  cases origin with
  | snapshot given =>
    cases hread
    exact h
  | text saved => exact Archive.keyed_of_read hread
  | nothing => cases hread

/-- An edit of a sound session leaves a tree. -/
theorem Sound.changed_edited (h : s.Sound) {command : Command} {edit : Draft.Edit}
    {effect : Draft.Effect} {after : Draft} (hedit : command.edit? s = some edit)
    (hrun : edit.run s.draft = .ok effect after) (selection : List String) :
    ChangedFrom s ((s.withDraft after).selecting selection).changed :=
  ⟨_, rfl, h.edited (Draft.run_step h.draft (h.attachesTree hedit) hrun) selection, rfl, rfl⟩

/-- And so does a load, by its own check. -/
theorem Sound.changed_loaded (h : s.Sound) {origin : Origin} {snapshot : Snapshot} {draft : Draft}
    (hload : (Command.load origin).LoadsKeyed) (hread : origin.read s.draft.catalog = .ok snapshot)
    (hcheck : checkLoad s.draft.catalog snapshot = .ok ())
    (hdraft : Draft.ofPage s.draft.catalog s.draft.ids snapshot.page = .ok draft) :
    ChangedFrom s (s.restored snapshot draft).changed := by
  have hr := restorable_of_checkLoad (keyed_of_origin hload hread) hcheck
  exact ⟨_, rfl, h.restored hr.keyed hr.linked hdraft, rfl, rfl⟩

/-- Every command is of one of three kinds: it commits, it travels, or it leaves the page and the
timeline alone. -/
theorem Command.run_cases (h : s.Coupled) {command : Command} (hload : command.LoadsKeyed) :
    (command.Commits s ∧ Ends (ChangedFrom s) command.run s) ∨
      (command.Travels ∧ Ends (TravelledFrom s) command.run s) ∨
      (¬ command.Commits s ∧ ¬ command.Travels ∧ Ends (KeptFrom s) command.run s) := by
  have houtcome := command.run_outcome s
  generalize hrun : command.run s = result at houtcome
  cases houtcome with
  | declined _ failure =>
    have hends {good : Session → Prop} : Ends good command.run s :=
      Or.inl ⟨failure, s, hrun, h.toSound.failedFrom⟩
    by_cases hc : command.Commits s
    · exact Or.inl ⟨hc, hends⟩
    by_cases ht : command.Travels
    · exact Or.inr (Or.inl ⟨ht, hends⟩)
    · exact Or.inr (Or.inr ⟨hc, ht, hends⟩)
  | halted hedit hfailed =>
    obtain ⟨hstep, hpage⟩ := Draft.failed_step h.draft hfailed
    exact Or.inl ⟨commits_of_edit hedit, Or.inl ⟨_, _, hrun, _, rfl, hstep, hpage⟩⟩
  | edited hedit hok selection =>
    have hchanged := h.toSound.changed_edited hedit hok selection
    exact Or.inl ⟨commits_of_edit hedit, Or.inr ⟨_, _, hrun, hchanged⟩⟩
  | loaded hread hcheck hdraft =>
    have hchanged := h.toSound.changed_loaded hload hread hcheck hdraft
    exact Or.inl ⟨trivial, Or.inr ⟨_, _, hrun, hchanged⟩⟩
  | travelled ht hclosed hentries hlimit =>
    obtain ⟨t, htravel, ht'⟩ := h.travelled hclosed hentries hlimit
    rw [Results.map_of_ok htravel] at hrun
    exact Or.inr (Or.inl ⟨ht, Or.inr ⟨_, t, hrun, ht'⟩⟩)
  | beside hc ht hmove =>
    exact Or.inr (Or.inr ⟨hc, ht, Or.inr ⟨_, _, hrun, h.kept (hmove.aside hc ht)⟩⟩)

/-! ## Steps -/

/-- What every step keeps: the coupling, the number of open batches, and inside a batch the
timeline. -/
structure Follows (s t : Session) : Prop where
  coupled : t.Coupled
  openBatches : t.openBatches = s.openBatches
  timeline : s.inBatch = true → t.timeline = s.timeline

theorem Follows.refl (h : s.Coupled) : Follows s s :=
  ⟨h, rfl, fun _ => rfl⟩

/-- One session follows another through any that lie between. -/
theorem Follows.trans {u : Session} (h : Follows s t) (h' : Follows t u) : Follows s u where
  coupled := h'.coupled
  openBatches := h'.openBatches.trans h.openBatches
  timeline hb :=
    (h'.timeline ((inBatch_congr h.openBatches).trans hb)).trans (h.timeline hb)

/-- After a failure at most the ids have moved. -/
theorem FailedFrom.follows (ht : FailedFrom s t) (h : s.Coupled) : Follows s t := by
  have hc := h.failed ht
  obtain ⟨draft, rfl, -⟩ := ht
  exact ⟨hc, rfl, fun _ => rfl⟩

theorem ChangedFrom.follows (h : ChangedFrom s t) : Follows s t := by
  obtain ⟨u, rfl, hu, hopen, htimeline⟩ := h
  refine ⟨hu.changed, (openBatches_changed u).trans hopen, ?_⟩
  intro hb
  rw [← inBatch_congr hopen] at hb
  unfold Session.changed
  rw [if_pos hb]
  exact htimeline

/-- Outside a batch a change is one commit, of the session as it is afterwards. -/
theorem ChangedFrom.timeline (h : ChangedFrom s t) (hb : s.inBatch = false) :
    t.timeline = s.timeline.commit t.snapshot := by
  obtain ⟨u, rfl, hu, hopen, htimeline⟩ := h
  rw [snapshot_changed, ← htimeline]
  rw [← inBatch_congr hopen] at hb
  unfold Session.changed
  rw [hb]
  rfl

theorem KeptFrom.follows (h : KeptFrom s t) : Follows s t :=
  ⟨h.1, h.2.1, fun _ => h.2.2⟩

theorem TravelledFrom.follows (h : TravelledFrom s t) : Follows s t :=
  ⟨h.2.1, h.2.2.1, fun hb => absurd (hb.symm.trans h.1) (by simp)⟩

/-- A result of which every session is good. -/
def Yields {α : Type} (good : Session → Prop) : EStateM.Result Failure Session α → Prop
  | .ok _ t => good t
  | .error _ t => good t

theorem Ends.yields {α : Type} {good : Session → Prop} {action : Action α}
    (h : Ends good action s) (hc : s.Coupled) (hgood : ∀ {t}, good t → Follows s t) :
    Yields (Follows s) (action s) := by
  rcases h with ⟨failure, t, h, ht⟩ | ⟨a, t, h, ht⟩
  · rw [h]
    exact ht.follows hc
  · rw [h]
    exact hgood ht

/-- Whatever comes of a command, the session after it follows the one before. -/
theorem Command.run_follows (h : s.Coupled) {command : Command} (hload : command.LoadsKeyed) :
    Yields (Follows s) (command.run s) := by
  rcases Command.run_cases h hload with ⟨-, he⟩ | ⟨-, he⟩ | ⟨-, -, he⟩
  · exact he.yields h ChangedFrom.follows
  · exact he.yields h TravelledFrom.follows
  · exact he.yields h KeptFrom.follows

theorem after_ofResult {good : Session → Prop} {result : EStateM.Result Failure Session Reply}
    (h : Yields good result) (inner : List Report) : good (Report.ofResult inner result).after := by
  cases result <;> exact h

/-! ## Batches -/

/-- After a batch is opened there is one. -/
theorem inBatch_enter (s : Session) : s.enter.inBatch = true := by
  unfold enter
  split
  · rename_i hb
    simp [inBatch]
  · simp [inBatch]

theorem Sound.ofOpen (h : s.Sound) (n : Nat) : Sound { s with openBatches := n } :=
  ⟨h.draft, h.stem, h.clipboard, h.entries⟩

/-- Nothing has changed yet in a batch opened now. -/
theorem Coupled.enter (h : s.Coupled) : s.enter.Coupled := by
  -- The outermost batch forgets what changed before it; an inner one leaves the mark as it is.
  unfold Session.enter
  cases hb : s.inBatch with
  | true =>
    rw [if_pos rfl]
    refine ⟨h.toSound.ofOpen _, fun hno => h.present fun _ => hno ?_⟩
    simp [inBatch]
  | false =>
    refine ⟨⟨h.draft, h.stem, h.clipboard, h.entries⟩, fun _ => h.present ?_⟩
    intro hin
    exact absurd (hin.symm.trans hb) (by simp)

theorem timeline_enter (s : Session) : s.enter.timeline = s.timeline := by
  unfold enter
  split <;> rfl

/-- An inner batch joins the outer one, whether it fails or not. -/
theorem leave_inner {α : Type} (hb : s.inBatch = true)
    {result : EStateM.Result Failure Session α} (h : Yields (Follows s.enter) result) :
    Yields (Follows s) (s.leave result) := by
  have hstep : ∀ {t}, Follows s.enter t →
      Follows s { t with openBatches := t.openBatches - 1 } := by
    intro t ht
    have hopen : t.openBatches = s.openBatches + 1 := by
      rw [ht.openBatches, enter, if_pos hb]
    have hin : t.inBatch = true := (inBatch_congr ht.openBatches).trans (inBatch_enter s)
    have hopen' : t.openBatches - 1 = s.openBatches := by omega
    refine ⟨⟨ht.coupled.toSound.ofOpen _, fun hno => ht.coupled.present fun _ => hno ?_⟩, hopen',
      fun _ => (ht.timeline (inBatch_enter s)).trans (timeline_enter s)⟩
    rw [← hb]
    exact inBatch_congr hopen'
  cases result with
  | ok a t =>
    simp only [leave, if_pos hb]
    exact hstep h
  | error failure t =>
    simp only [leave, if_pos hb]
    exact hstep h

/-- At its end the outermost batch is committed if something has changed in it. -/
theorem finish_cases (h : t.Coupled) : t.finish.Coupled ∧ t.finish.openBatches = 0 ∧
    (t.finish.timeline = t.timeline ∨
      t.finish.timeline = t.timeline.commit t.finish.snapshot) := by
  unfold finish
  by_cases hc : t.changedInBatch = true
  · rw [if_pos hc]
    exact ⟨(h.toSound.ofOpen 0).commit, rfl, Or.inr rfl⟩
  · rw [if_neg hc]
    refine ⟨⟨h.toSound.ofOpen 0, fun _ => h.present ?_⟩, rfl, Or.inl rfl⟩
    intro _
    simpa using hc

/-- If the outermost batch fails, the page from before it is the page being edited again, and it
has been the present entry all the time. -/
theorem restore_before (h : s.Coupled) (hb : s.inBatch = false) (ht : t.Sound)
    (htimeline : t.timeline = s.timeline) : ∃ u : Session,
      restore s.snapshot { t with openBatches := 0 } = .ok () u ∧ u.Coupled ∧
        u.openBatches = 0 ∧ u.timeline = s.timeline := by
  obtain ⟨u, hrestore, hu, hpage, hopen, -, htime⟩ :=
    @Sound.restore_eq _ (ht.ofOpen 0) s.snapshot h.toSound.restorable
  refine ⟨u, hrestore, ⟨hu, ?_⟩, hopen, htime.trans htimeline⟩
  intro _
  rw [hpage, htime]
  show s.draft.page = t.timeline.present.page
  rw [htimeline]
  exact h.present_of_closed hb

/-- The end of the outermost batch commits or restores, and closes it. -/
theorem leave_outer {α : Type} (h : s.Coupled) (hb : s.inBatch = false)
    {result : EStateM.Result Failure Session α} (hr : Yields (Follows s.enter) result) :
    match s.leave result with
    | .ok _ t => t.Coupled ∧ t.openBatches = s.openBatches ∧
        (t.timeline = s.timeline ∨ t.timeline = s.timeline.commit t.snapshot)
    | .error _ t => t.Coupled ∧ t.openBatches = s.openBatches ∧ t.timeline = s.timeline := by
  -- Outside a batch none is open, which is what the end of the outermost one sets.
  have hclosed : 0 = s.openBatches := by
    have : ¬ 0 < s.openBatches := by simpa [inBatch] using hb
    omega
  have hnotin : ¬ s.inBatch = true := by simp [hb]
  cases result with
  | ok a t =>
    have htimeline := (hr.timeline (inBatch_enter s)).trans (timeline_enter s)
    obtain ⟨hc, hopen, htime⟩ := finish_cases hr.coupled
    simp only [leave, if_neg hnotin]
    rw [htimeline] at htime
    exact ⟨hc, hopen.trans hclosed, htime⟩
  | error failure t =>
    have htimeline := (hr.timeline (inBatch_enter s)).trans (timeline_enter s)
    obtain ⟨u, hrestore, hu, hopen, htime⟩ := restore_before h hb hr.coupled.toSound htimeline
    simp only [leave, if_neg hnotin, hrestore]
    exact ⟨hu, hopen.trans hclosed, htime⟩

/-- Either way the session after a batch follows the one before it. -/
theorem leave_follows {α : Type} (h : s.Coupled) {result : EStateM.Result Failure Session α}
    (hr : Yields (Follows s.enter) result) : Yields (Follows s) (s.leave result) := by
  cases hb : s.inBatch with
  | true => exact leave_inner hb hr
  | false =>
    have houter := leave_outer h hb hr
    have hnotin : s.inBatch = true → False := fun hin => absurd (hin.symm.trans hb) (by simp)
    cases hleave : s.leave result with
    | ok a t =>
      rw [hleave] at houter
      exact ⟨houter.1, houter.2.1, fun hin => (hnotin hin).elim⟩
    | error failure t =>
      rw [hleave] at houter
      exact ⟨houter.1, houter.2.1, fun hin => (hnotin hin).elim⟩

/-- To give a batch up is to fail at its end. -/
theorem conclude_yields {good : Session → Prop} {abandon : Option String}
    {result : EStateM.Result Failure Session Unit} (h : Yields good result) :
    Yields good (conclude abandon result) := by
  cases result with
  | ok a t => cases abandon <;> exact h
  | error failure t => exact h

/-! ## Steps and runs -/

mutual

/-- All snapshots that are handed over in a step have their elements under their own ids. -/
def Step.LoadsKeyed : Step → Prop
  | .command command _ => command.LoadsKeyed
  | .batch steps _ _ => LoadKeyed steps

/-- All steps load only such snapshots. -/
def LoadKeyed : List Step → Prop
  | [] => True
  | step :: rest => step.LoadsKeyed ∧ LoadKeyed rest

end

mutual

/-- By recursion over steps and batches inside batches. -/
theorem Step.run_follows : ∀ {s : Session} {step : Step}, s.Coupled → step.LoadsKeyed →
    Follows s (step.run s).after
  | _, .command command _, h, hload => by
    rw [Step.LoadsKeyed] at hload
    rw [Step.run]
    exact after_ofResult (Command.run_follows h hload) []
  | s, .batch steps abandon _, h, hload => by
    rw [Step.LoadsKeyed] at hload
    rw [Step.run]
    have hsteps := runSteps_follows h.enter hload
    exact after_ofResult (leave_follows h (conclude_yields hsteps)) _

/-- The induction is over the steps; a failure that is passed on ends it early. -/
theorem runSteps_follows : ∀ {s : Session} {steps : List Step}, s.Coupled → LoadKeyed steps →
    Yields (Follows s) (runSteps s steps).result
  | _, [], h, _ => by
    rw [runSteps]
    exact .refl h
  | s, step :: rest, h, hload => by
    rw [LoadKeyed] at hload
    obtain ⟨hstep, hrest⟩ := hload
    have hfirst := Step.run_follows h hstep
    rw [runSteps]
    cases hp : (step.run s).passedOn step.escalates with
    | some failure => exact hfirst
    | none =>
      show Yields (Follows s) (runSteps (step.run s).after rest).result
      -- The rest runs from a session that is coupled again.
      have hnext := runSteps_follows hfirst.coupled hrest
      cases hr : (runSteps (step.run s).after rest).result with
      | ok a t =>
        rw [hr] at hnext
        exact hfirst.trans hnext
      | error failure t =>
        rw [hr] at hnext
        exact hfirst.trans hnext

end

/-- Running steps in a session comes to run a step in another one; steps in batches count. -/
inductive Calls : Session → List Step → Session → Step → Prop
  | first (s : Session) (step : Step) (rest : List Step) : Calls s (step :: rest) s step
  /-- After a step that does not end the run. -/
  | later {s t : Session} {step call : Step} {rest : List Step}
      (hgo : (step.run s).passedOn step.escalates = none)
      (h : Calls (step.run s).after rest t call) : Calls s (step :: rest) t call
  /-- In a batch that the run comes to. -/
  | inside {s t : Session} {steps rest : List Step} {abandon : Option String} {escalates : Bool}
      {call : Step} (h : Calls s.enter steps t call) :
      Calls s (.batch steps abandon escalates :: rest) t call

/-- Every call is made in a session in which draft and timeline are coupled. -/
theorem Calls.coupled {steps : List Step} {call : Step} (hcall : Calls s steps t call)
    (h : s.Coupled) (hload : LoadKeyed steps) : t.Coupled ∧ call.LoadsKeyed := by
  induction hcall with
  | first s step rest => exact ⟨h, hload.1⟩
  | later hgo hcall ih => exact ih (Step.run_follows h hload.1).coupled hload.2
  | inside hcall ih => exact ih h.enter hload.1

/-- They are from the start. -/
theorem coupled_start {catalog : Catalog} {initial : Snapshot} {limit : Option Int}
    {preferences : Preferences} (hk : initial.page.Keyed) (ht : initial.page.IsTree)
    (h : Session.start catalog initial limit preferences = .ok s) : s.Coupled := by
  unfold start at h
  split at h
  · cases h
  · rename_i draft hdraft
    cases h
    obtain ⟨-, hpage, hstem, hc⟩ :=
      Draft.ofPage_consistent (Int.le_of_lt Int.one_pos) hk ht.linked hdraft
    have hsound : Restorable draft.page := by
      refine ⟨hc.keyed, hc.linked, fun hm => ?_⟩
      exact (IdSource.reads_congr hstem _).1 (hc.reads hm)
    refine ⟨⟨hc, hstem, fun hn => ?_, fun hm => ?_⟩, fun _ => hpage⟩
    · cases hn
    · rcases Timeline.mem_entries_iff.1 hm with hm | rfl | hm
      · cases hm
      · exact hpage ▸ hsound
      · cases hm

/-! ## What a call does to the timeline -/

theorem error_of_outcome {inner : List Report} {result : EStateM.Result Failure Session Reply}
    {failure : Failure} (h : (Report.ofResult inner result).outcome = .error failure) :
    ∃ t, result = .error failure t := by
  cases result with
  | ok reply t => cases h
  | error other t =>
    cases h
    exact ⟨t, rfl⟩

theorem Ends.after_ok {good : Session → Prop} {action : Action Reply} {reply : Reply}
    (h : Ends good action s)
    (hok : (Report.ofResult [] (action s)).outcome = .ok reply) :
    good (Report.ofResult [] (action s)).after := by
  rcases h with ⟨failure, t, h, -⟩ | ⟨a, t, h, ht⟩
  · rw [h] at hok
    cases hok
  · rw [h]
    exact ht

theorem Ends.after_error {good : Session → Prop} {action : Action Reply} {failure : Failure}
    (h : Ends good action s)
    (herror : (Report.ofResult [] (action s)).outcome = .error failure) :
    FailedFrom s (Report.ofResult [] (action s)).after := by
  rcases h with ⟨other, t, h, ht⟩ | ⟨a, t, h, ht⟩
  · rw [h]
    exact ht
  · rw [h] at herror
    cases herror

/-- What fails is not committed. -/
theorem FailedFrom.timeline (h : FailedFrom s t) : t.timeline = s.timeline := by
  obtain ⟨draft, rfl, -⟩ := h
  rfl

/-- What running a step in the session `s` does to the timeline; `t` is the session after it. -/
structure Accounted (s : Session) (step : Step) (t : Session) : Prop where
  /-- While no batch is open, the page being edited is the present entry. -/
  present_before : s.inBatch = false → s.draft.page = s.timeline.present.page
  present_after : t.inBatch = false → t.draft.page = t.timeline.present.page
  failed : ∀ {failure}, (step.run s).outcome = .error failure → t.timeline = s.timeline
  inside : s.inBatch = true → t.timeline = s.timeline
  /-- A change outside a batch adds one entry: the session as it is after the change. -/
  committed : ∀ {command escalates reply}, step = .command command escalates →
    (step.run s).outcome = .ok reply → command.Commits s → s.inBatch = false →
      t.timeline = s.timeline.commit t.snapshot
  /-- Undo and redo choose another entry at most. -/
  travelled : ∀ {command escalates}, step = .command command escalates → command.Travels →
    t.timeline.entries = s.timeline.entries ∧ t.timeline.limit = s.timeline.limit
  kept : ∀ {command escalates}, step = .command command escalates → ¬ command.Commits s →
    ¬ command.Travels → t.timeline = s.timeline
  batched : ∀ {steps abandon escalates}, step = .batch steps abandon escalates →
    t.timeline = s.timeline ∨ t.timeline = s.timeline.commit t.snapshot

/-- A command commits once or not at all. -/
theorem Coupled.accounted_command (h : s.Coupled) {command : Command}
    (hload : command.LoadsKeyed) (escalates : Bool) :
    Accounted s (.command command escalates)
      ((Step.command command escalates).run s).after := by
  have hfollows : Follows s ((Step.command command escalates).run s).after :=
    Step.run_follows h (by rwa [Step.LoadsKeyed])
  -- A command commits, or travels, or does neither, and each clause is about one of the three.
  have hcases := Command.run_cases h hload
  rw [Step.run] at hfollows ⊢
  constructor
  case present_before => exact h.present_of_closed
  case present_after => exact hfollows.coupled.present_of_closed
  case inside => exact hfollows.timeline
  case batched => exact nofun
  case failed =>
    intro failure herror
    rw [Step.run] at herror
    rcases hcases with ⟨-, he⟩ | ⟨-, he⟩ | ⟨-, -, he⟩
    · exact (he.after_error herror).timeline
    · exact (he.after_error herror).timeline
    · exact (he.after_error herror).timeline
  case committed =>
    intro c e reply heq hok hc hb
    cases heq
    rw [Step.run] at hok
    rcases hcases with ⟨-, he⟩ | ⟨ht, -⟩ | ⟨hnc, -⟩
    · exact (he.after_ok hok).timeline hb
    · exact absurd hc (ht.not_commits s)
    · exact absurd hc hnc
  case travelled =>
    intro c e heq ht
    cases heq
    rcases hcases with ⟨hc, -⟩ | ⟨-, he⟩ | ⟨-, hnt, -⟩
    · exact absurd hc (ht.not_commits s)
    · rcases he with ⟨failure, t, he, ht⟩ | ⟨a, t, he, ht⟩
      · rw [he]
        exact ⟨congrArg _ ht.timeline, congrArg _ ht.timeline⟩
      · rw [he]
        exact ht.2.2.2
    · exact absurd ht hnt
  case kept =>
    intro c e heq hnc hnt
    cases heq
    rcases hcases with ⟨hc, -⟩ | ⟨ht, -⟩ | ⟨-, -, he⟩
    · exact absurd hc hnc
    · exact absurd ht hnt
    · rcases he with ⟨failure, t, he, ht⟩ | ⟨a, t, he, ht⟩
      · rw [he]
        exact ht.timeline
      · rw [he]
        exact ht.2.2

/-- Inside another batch nothing happens to the timeline. -/
theorem Coupled.accounted_inner (h : s.Coupled) (hb : s.inBatch = true) {steps : List Step}
    (hload : LoadKeyed steps) (abandon : Option String) (escalates : Bool) :
    Accounted s (.batch steps abandon escalates)
      ((Step.batch steps abandon escalates).run s).after := by
  have hfollows : Follows s ((Step.batch steps abandon escalates).run s).after :=
    Step.run_follows h (by rwa [Step.LoadsKeyed])
  constructor
  case present_before => exact h.present_of_closed
  case present_after => exact hfollows.coupled.present_of_closed
  case failed => exact fun _ => hfollows.timeline hb
  case inside => exact hfollows.timeline
  case committed => exact nofun
  case travelled => exact nofun
  case kept => exact nofun
  case batched => exact fun _ => Or.inl (hfollows.timeline hb)

/-- The outermost batch is undone, or committed once if something has changed in it. -/
theorem Coupled.accounted_outer (h : s.Coupled) (hb : s.inBatch = false) {steps : List Step}
    (hload : LoadKeyed steps) (abandon : Option String) (escalates : Bool) :
    Accounted s (.batch steps abandon escalates)
      ((Step.batch steps abandon escalates).run s).after := by
  have hsteps : Yields (Follows s.enter) (conclude abandon (runSteps s.enter steps).result) :=
    conclude_yields (runSteps_follows h.enter hload)
  -- What the steps have come to in between does not matter, as leaving decides what is kept.
  have hleave := leave_outer h hb hsteps
  have hfollows := after_ofResult (leave_follows h hsteps) (runSteps s.enter steps).reports
  rw [Step.run]
  constructor
  case present_before => exact h.present_of_closed
  case present_after => exact hfollows.coupled.present_of_closed
  case failed =>
    intro failure herror
    rw [Step.run] at herror
    obtain ⟨t, ht⟩ := error_of_outcome herror
    rw [ht] at hleave ⊢
    exact hleave.2.2
  case inside => exact hfollows.timeline
  case committed => exact nofun
  case travelled => exact nofun
  case kept => exact nofun
  case batched =>
    intro _ _ _ _
    cases hr : s.leave (conclude abandon (runSteps s.enter steps).result) with
    | ok reply t =>
      rw [hr] at hleave
      exact hleave.2.2
    | error failure t =>
      rw [hr] at hleave
      exact Or.inl hleave.2.2

/-- Inside another batch a batch commits nothing; else it commits once or not at all. -/
theorem Coupled.accounted_batch (h : s.Coupled) {steps : List Step} (hload : LoadKeyed steps)
    (abandon : Option String) (escalates : Bool) :
    Accounted s (.batch steps abandon escalates)
      ((Step.batch steps abandon escalates).run s).after := by
  cases hb : s.inBatch with
  | true => exact h.accounted_inner hb hload abandon escalates
  | false => exact h.accounted_outer hb hload abandon escalates

/-- From a session started with a page that is a tree, every call of every run accounts for the
timeline: at whatever depth of batches, after whatever failures, and with whatever
limit on the number of entries. -/
theorem timeline_of_calls {catalog : Catalog} {initial : Snapshot} {limit : Option Int}
    {preferences : Preferences} {start : Session} {steps : List Step} {call : Step}
    (hk : initial.page.Keyed) (ht : initial.page.IsTree)
    (hstart : Session.start catalog initial limit preferences = .ok start)
    (hload : LoadKeyed steps) (hcall : Calls start steps s call) :
    Accounted s call (call.run s).after := by
  obtain ⟨hs, hcall⟩ := hcall.coupled (coupled_start hk ht hstart) hload
  cases call with
  | command command escalates =>
    rw [Step.LoadsKeyed] at hcall
    exact hs.accounted_command hcall escalates
  | batch steps abandon escalates =>
    rw [Step.LoadsKeyed] at hcall
    exact hs.accounted_batch hcall abandon escalates

/-- An insertion in a batch, in a session that starts empty. -/
theorem timeline_of_calls_in_batch :
    let insertion : Step := .command (.insert none "container" none .empty .empty) false
    let steps : List Step := [.command .undo false, .batch [insertion] none false]
    ∃ start s, Session.start .builtIn .empty (some 3) {} = .ok start ∧
      Calls start steps s insertion ∧ Accounted s insertion (insertion.run s).after := by
  intro insertion steps
  have hload : LoadKeyed steps := by
    simp [steps, insertion, LoadKeyed, Step.LoadsKeyed, Command.LoadsKeyed]
  obtain ⟨start, hstart⟩ : ∃ start, Session.start .builtIn .empty (some 3) {} = .ok start :=
    ⟨_, rfl⟩
  have hcall : Calls start steps _ insertion :=
    .later (by cases h : (Step.run start (.command .undo false)).outcome <;>
      simp [Report.passedOn, Step.escalates, h]) (.inside (.first _ insertion []))
  refine ⟨start, _, hstart, hcall, ?_⟩
  exact timeline_of_calls (fun he => by cases he) Page.linked_empty.isTree hstart hload hcall

end PageBuilder.Session
