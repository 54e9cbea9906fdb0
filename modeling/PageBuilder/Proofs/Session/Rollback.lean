import PageBuilder.Proofs.Session.Records

/-!
# Batches that fail

When a failure leaves the outermost batch, the page, the selection and the viewport from before
are restored and nothing is committed.  Only the ids that were handed out inside stay used.

Restoring has to read the ids of the page once more, with a source that may have moved on in the
meantime.  It cannot fail, because the ids a source makes sense of depend on its stem alone
(`exists_restore`); this is all that is needed of the page, so a session may start from any
snapshot it can be started from.
-/

namespace PageBuilder.Session

open Results

variable {s t u : Session}

theorem legible_start {catalog : Catalog} {initial : Snapshot} {limit : Option Int}
    {preferences : Preferences} (h : Session.start catalog initial limit preferences = .ok s) :
    s.draft.Legible := by
  unfold start at h
  split at h
  · cases h
  · rename_i draft hdraft
    cases h
    have hadvances : Draft.Advances ⟨catalog, {}, {}⟩ draft := Draft.ofPage_advances hdraft
    exact hadvances.legible ⟨Int.le_of_lt Int.one_pos, fun hc => by cases hc⟩

/-! ## Restoring the session from before -/

/-- The page of a session can be restored after anything that happens to the session later. -/
theorem exists_restore (hs : s.draft.Legible) (h : Draft.Advances s.draft t.draft) :
    ∃ draft : Draft, draft.page = s.draft.page ∧ Draft.Advances t.draft draft ∧
      restore s.snapshot t = .ok () { t with
        draft := draft
        selection := s.snapshot.selection.filter s.draft.page.contains
        viewport := s.snapshot.viewport.orStandard } := by
  obtain ⟨ids, hpage⟩ := @IdSource.exists_ofPage t.draft.ids s.draft.page t.draft.catalog
    fun id hm => (IdSource.reads_congr h.stem id).2
      (hs.reads ((s.draft.page.elements.contains_iff id).2 hm))
  refine ⟨⟨t.draft.catalog.orBuiltIn, ids, s.draft.page⟩, rfl, Draft.ofPage_advances hpage, ?_⟩
  unfold restore
  rw [show s.snapshot.page = s.draft.page from rfl, hpage]

theorem filter_selection (h : ∀ id ∈ s.selection, s.draft.page.contains id = true) :
    s.snapshot.selection.filter s.draft.page.contains = s.selection := by
  show (s.selection.filter s.draft.page.contains).filter s.draft.page.contains = s.selection
  rw [List.filter_eq_self.2 h, List.filter_eq_self.2 h]

theorem snapshot_congr (hpage : u.draft.page = s.draft.page) (hsel : u.selection = s.selection)
    (hview : u.viewport = s.viewport) : u.snapshot = s.snapshot := by
  rw [Session.snapshot, Session.snapshot, Draft.snapshot, Draft.snapshot, hpage, hsel, hview]

/-- The end of a batch that fails. -/
theorem leave_error {α : Type} (failure : Failure) (hb : s.inBatch = false)
    (hs : s.draft.Legible) (h : Draft.Advances s.draft t.draft)
    (hsel : ∀ id ∈ s.selection, s.draft.page.contains id = true)
    (hview : s.viewport.isEmpty = false) :
    ∃ u, s.leave (.error failure t : EStateM.Result Failure Session α) = .error failure u ∧
      u.draft.page = s.draft.page ∧ u.selection = s.selection ∧ u.viewport = s.viewport ∧
      u.timeline = t.timeline ∧ u.openBatches = 0 ∧ Draft.Advances t.draft u.draft := by
  obtain ⟨draft, hpage, hdraft, hrestore⟩ :=
    exists_restore (t := { t with openBatches := 0 }) hs h
  refine ⟨{ t with
    openBatches := 0
    draft := draft
    selection := s.selection
    viewport := s.viewport }, ?_, hpage, rfl, rfl, rfl, rfl, hdraft⟩
  have hviewport : s.snapshot.viewport.orStandard = s.viewport := by
    show s.viewport.orStandard.orStandard = s.viewport
    rw [Viewport.orStandard_eq hview, Viewport.orStandard_eq hview]
  rw [filter_selection hsel, hviewport] at hrestore
  simp only [leave, hb, Bool.false_eq_true, if_false, hrestore]

/-! ## After the batch -/

/-- Outside a batch a change that has been recorded is one commit. -/
theorem Recorded.committed {α : Type} {a : α} (hb : s.inBatch = false)
    (h : Recorded s (.ok a t : EStateM.Result Failure Session α)) :
    t.timeline = s.timeline.commit t.snapshot := by
  obtain ⟨u, hu, rfl⟩ := h
  have hclosed : u.inBatch = false := (inBatch_congr hu.openBatches).trans hb
  rw [snapshot_changed, ← hu.timeline, changed, hclosed]
  rfl

/-- What is left of a batch of steps that was opened in the session `s`, after a failure has ended
it in `t`. -/
structure RolledBack (s : Session) (steps : List Step) (t u : Session) : Prop where
  snapshot : u.snapshot = s.snapshot
  selection : u.selection = s.selection
  viewport : u.viewport = s.viewport
  timeline : u.timeline = s.timeline
  closed : u.inBatch = false
  next_le : t.draft.ids.next ≤ u.draft.ids.next
  /-- An id that was handed out inside is never handed out again. -/
  ids : ∀ {v call id later w next}, Calls s.enter steps v call →
    v.draft.ids.HandedOut (call.run v).after.draft.ids id → Calls u later w next →
      ¬ w.draft.ids.HandedOut (next.run w).after.draft.ids id
  /-- Changes are committed again, each of them once. -/
  commits : ∀ {later w command escalates reply}, Calls u later w (.command command escalates) →
    w.inBatch = false → command.Commits w →
      ((Step.command command escalates).run w).outcome = .ok reply →
        ((Step.command command escalates).run w).after.timeline =
          w.timeline.commit ((Step.command command escalates).run w).after.snapshot

theorem ids_of_advances (hs : s.draft.Legible) {steps : List Step}
    (hu : Draft.Advances (stateOf (runSteps s.enter steps).result).draft u.draft) {v w : Session}
    {call next : Step} {later : List Step} {id : String} (hcall : Calls s.enter steps v call)
    (hid : v.draft.ids.HandedOut (call.run v).after.draft.ids id) (hnext : Calls u later w next) :
    ¬ w.draft.ids.HandedOut (next.run w).after.draft.ids id := by
  have hbefore := (advances_enter s).trans hcall.advances
  have hafter := (hcall.advances_end.trans hu).trans hnext.advances
  have hduring := (Step.run_retains v call).draft
  apply hid.not_handedOut
  · exact Int.le_trans hs.next_nonneg hbefore.next_le
  · exact hafter.stem.trans hduring.stem
  · exact hafter.next_le

theorem commits_of_ok {w : Session} {command : Command} {escalates : Bool} {reply : Reply}
    (hb : w.inBatch = false) (hc : command.Commits w)
    (hok : ((Step.command command escalates).run w).outcome = .ok reply) :
    ((Step.command command escalates).run w).after.timeline =
      w.timeline.commit ((Step.command command escalates).run w).after.snapshot := by
  have hrecorded := Command.run_recorded hc
  rw [Step.run] at hok ⊢
  cases hr : command.run w with
  | ok a t =>
    rw [hr] at hrecorded
    exact hrecorded.committed hb
  | error failure t =>
    rw [hr] at hok
    cases hok

/-- A batch that a failure ends passes that failure on and is undone, whatever was done in it: in
every session that is reached from any start and is not in a batch. -/
theorem batch_rolled_back {catalog : Catalog} {initial : Snapshot} {limit : Option Int}
    {preferences : Preferences} {start : Session} {earlier steps : List Step}
    {abandon : Option String} {escalates : Bool} {failure : Failure}
    (hstart : Session.start catalog initial limit preferences = .ok start)
    (hcall : Calls start earlier s (.batch steps abandon escalates)) (hb : s.inBatch = false)
    (hsel : ∀ id ∈ s.selection, s.draft.page.contains id = true)
    (hview : s.viewport.isEmpty = false)
    (hfail : conclude abandon (runSteps s.enter steps).result = .error failure t) :
    ∃ u, (Step.batch steps abandon escalates).run s =
        .mk (.error failure) u (runSteps s.enter steps).reports ∧
      RolledBack s steps t u := by
  have hs : s.draft.Legible := hcall.advances.legible (legible_start hstart)
  have hrun : stateOf (runSteps s.enter steps).result = t := by
    rw [← stateOf_conclude abandon, hfail]
    rfl
  have hsteps := runSteps_retains s.enter steps
  rw [hrun] at hsteps
  obtain ⟨u, hleave, hpage, hselection, hviewport, htimeline, hopen, hdraft⟩ :=
    leave_error (α := Reply) failure hb hs ((advances_enter s).trans hsteps.draft) hsel hview
  refine ⟨u, ?_, ?_⟩
  · rw [Step.run, hfail, hleave]
    rfl
  · refine ⟨snapshot_congr hpage hselection hviewport, hselection, hviewport, ?_, ?_,
      hdraft.next_le, ids_of_advances hs (by rwa [hrun]), fun _ => commits_of_ok⟩
    · exact htimeline.trans ((hsteps.timeline (inBatch_enter s)).trans (timeline_enter s))
    · simp [inBatch, hopen]

/-- A batch that empties the page, builds it anew in an inner batch and is given up. -/
theorem batch_rolled_back_pair :
    let initial : Snapshot := ⟨Page.pair, ["el_2"], .standard⟩
    let steps : List Step := [.command (.remove "el_2") false, .command .undo false,
      .batch [.command .clear false,
        .command (.insert none "container" none .empty .empty) false] none false]
    ∃ start t u, Session.start .builtIn initial none {} = .ok start ∧
      conclude (some "stop") (runSteps start.enter steps).result = .error (.abandoned "stop") t ∧
      (Step.batch steps (some "stop") true).run start =
        .mk (.error (.abandoned "stop")) u (runSteps start.enter steps).reports ∧
      RolledBack start steps t u := by
  intro initial steps
  have hinitial : ((Session.start .builtIn initial none {}).toOption.any fun start =>
      !start.inBatch && start.selection.all start.draft.page.contains &&
        !start.viewport.isEmpty) = true := by decide +kernel
  cases hstart : Session.start .builtIn initial none {} with
  | error failure =>
    rw [hstart] at hinitial
    cases hinitial
  | ok start =>
    simp only [hstart, Except.toOption, Option.any_some, Bool.and_eq_true, Bool.not_eq_true',
      List.all_eq_true] at hinitial
    obtain ⟨⟨hb, hsel⟩, hview⟩ := hinitial
    obtain ⟨t, ht⟩ : ∃ t, (runSteps start.enter steps).result = .ok () t :=
      exists_end (by simp [steps, Step.escalates])
    have hfail : conclude (some "stop") (runSteps start.enter steps).result =
        .error (.abandoned "stop") t := by
      rw [ht]
      rfl
    obtain ⟨u, hrun, hback⟩ := batch_rolled_back hstart
      (.first start (.batch steps (some "stop") true) []) hb hsel hview hfail
    exact ⟨start, t, u, rfl, hfail, hrun, hback⟩

end PageBuilder.Session
