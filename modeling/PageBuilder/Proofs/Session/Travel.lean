import Mathlib.Logic.Function.Iterate
import PageBuilder.Proofs.Session.Invariants
import PageBuilder.Proofs.Session.Rollback
import PageBuilder.Proofs.Timeline.Window

/-!
# Undo and redo invert each other and every change

An entry of the timeline can be shown again as it was committed, because nothing of it is lost when
it is restored: what is selected in it is stored in it, and its viewport is not empty.  `Settled`
says this of all entries, and every move keeps it.  So undo and redo end in a session whose snapshot
is the present entry (`GoesTo`), and what is left is that undo and redo are inverse on timelines.

A selection or a viewport that has not been committed is no entry.  It is given up by the first
undo or redo, and before that the session does not show the present entry
(`undo_redo_inverse_pending`).
-/

namespace PageBuilder

/-- A snapshot of which nothing is lost when it is restored. -/
structure Snapshot.Settled (snapshot : Snapshot) : Prop where
  selected : ∀ id ∈ snapshot.selection, snapshot.page.contains id = true
  viewport : snapshot.viewport.isEmpty = false

theorem Snapshot.settled_ofPage (page : Page) (selection : List String) (viewport : Viewport) :
    (Snapshot.ofPage page selection viewport).Settled where
  selected _ hid := (List.mem_filter.1 hid).2
  viewport := by
    unfold ofPage Viewport.orStandard
    split
    · rfl
    · rename_i h
      simpa using h

namespace Timeline

variable {α : Type}

theorem iterate_redo_undo : ∀ {k : Nat} {t : Timeline α}, k ≤ t.cursor →
    redo^[k] (undo^[k] t) = t
  | 0, t, _ => rfl
  | k + 1, t, hk => by
    have hback : k ≤ t.undo.cursor := by
      rw [cursor_undo]
      omega
    have hcan : t.canUndo = true := by
      cases hpast : t.past with
      | nil => simp [cursor, hpast] at hk
      | cons => simp [canUndo, hpast]
    rw [Function.iterate_succ_apply' redo, Function.iterate_succ_apply undo,
      iterate_redo_undo hback, redo_undo hcan]

end Timeline

namespace Session

open Results

variable {s t u : Session}

/-! ## Entries that can be shown again -/

/-- Every entry of the timeline can be shown again, and there is room for one. -/
structure Settled (s : Session) : Prop where
  entries : ∀ entry ∈ s.timeline.entries, entry.Settled
  limit : ∀ k, s.timeline.limit = some k → 1 ≤ k

theorem Settled.congr (h : s.Settled) (hentries : t.timeline.entries = s.timeline.entries)
    (hlimit : t.timeline.limit = s.timeline.limit) : t.Settled where
  entries entry hm := h.entries entry (hentries ▸ hm)
  limit k hk := h.limit k (hlimit ▸ hk)

theorem Settled.commit (h : s.Settled) : s.commit.Settled where
  entries := by
    intro entry hm
    rcases Timeline.mem_entries_commit hm with rfl | hm
    · exact Snapshot.settled_ofPage s.draft.page s.selection s.viewport
    · exact h.entries entry hm
  limit := h.limit

theorem Settled.changed (h : s.Settled) : s.changed.Settled := by
  unfold Session.changed
  split
  · exact h.congr rfl rfl
  · exact h.commit

theorem Settled.restore (h : s.Settled) (snapshot : Snapshot) :
    (stateOf (restore snapshot s)).Settled := by
  have htimeline := (proceeds_restore snapshot s).timeline
  exact h.congr (by rw [htimeline]) (by rw [htimeline])

theorem invariant_settled : Invariant Settled where
  move := by
    intro s t command _ hs hmove
    cases hmove with
    | edited hedit hrun selection => exact Settled.changed (hs.congr rfl rfl)
    | loaded hread hcheck hdraft => exact Settled.changed (hs.congr rfl rfl)
    | travelled ht hentries hlimit => exact Settled.restore (hs.congr hentries hlimit) _
    | kept | halted | copied | selected | set | generated => exact hs.congr rfl rfl
  enter := by
    intro s hs
    exact hs.congr (by rw [timeline_enter]) (by rw [timeline_enter])
  closed n hs := hs.congr rfl rfl
  commit hs := hs.commit
  restore _ hu := hu.restore _

theorem settled_start {catalog : Catalog} {initial : Snapshot} {limit : Option Int}
    {preferences : Preferences} (hinitial : initial.Settled)
    (h : Session.start catalog initial limit preferences = .ok s) : s.Settled := by
  unfold start at h
  split at h
  · cases h
  · cases h
    refine ⟨fun entry hm => ?_, fun k hk => ?_⟩
    · rw [List.mem_singleton.1 hm]
      exact hinitial
    · exact (Timeline.withinLimit_start initial _ k hk).1

/-! ## Going along the timeline -/

/-- Outside batches every entry can be gone to. -/
structure Mobile (s : Session) : Prop where
  coupled : s.Coupled
  settled : s.Settled
  closed : s.inBatch = false

/-- The session `t` is the session `s` at the present entry of another timeline. -/
structure ShownAt (s : Session) (there : Timeline Snapshot) (t : Session) : Prop where
  mobile : t.Mobile
  timeline : t.timeline = there
  snapshot : t.snapshot = there.present
  preferences : t.preferences = s.preferences
  catalog : t.draft.catalog.orBuiltIn = s.draft.catalog.orBuiltIn

theorem snapshot_restored {snapshot : Snapshot} (h : snapshot.Settled) {draft : Draft}
    (hpage : draft.page = snapshot.page) : (s.restored snapshot draft).snapshot = snapshot := by
  have hselection : snapshot.selection.filter snapshot.page.contains = snapshot.selection :=
    List.filter_eq_self.2 h.selected
  have hviewport : snapshot.viewport.orStandard = snapshot.viewport :=
    Viewport.orStandard_eq h.viewport
  simp [Session.snapshot, Draft.snapshot, Snapshot.ofPage, restored, hpage, hselection, hviewport]

theorem travel_shows (h : s.Mobile) {there : Timeline Snapshot}
    (hentries : there.entries = s.timeline.entries) (hlimit : there.limit = s.timeline.limit) :
    ∃ t, travel there s = .ok there.present t ∧ ShownAt s there t := by
  obtain ⟨t, hrestore, htravel, ht, hpage, hopen, htimeline⟩ :=
    h.coupled.toSound.travel_eq hentries
  have hmobile : t.Mobile := by
    refine ⟨⟨ht, fun _ => ?_⟩, ?_, (inBatch_congr hopen).trans h.closed⟩
    · rw [hpage, htimeline]
    · exact h.settled.congr (by rw [htimeline, hentries]) (by rw [htimeline, hlimit])
  obtain ⟨failure, herror⟩ | ⟨draft, hdraft, hok⟩ :=
    restore_cases there.present { s with timeline := there }
  · cases hrestore.symm.trans herror
  · cases hrestore.symm.trans hok
    have hcatalog : draft.catalog = s.draft.catalog.orBuiltIn := (IdSource.ofPage_eq hdraft).1
    refine ⟨_, htravel, hmobile, rfl, ?_, rfl, ?_⟩
    · exact snapshot_restored
        (h.settled.entries _ (hentries ▸ there.present_mem_entries)) hpage
    · show draft.catalog.orBuiltIn = s.draft.catalog.orBuiltIn
      rw [hcatalog, Catalog.orBuiltIn_orBuiltIn]

/-- The command goes along the timeline in a certain way, wherever it is called. -/
def Command.GoesTo (command : Command) (go : Timeline Snapshot → Timeline Snapshot) : Prop :=
  ∀ {s : Session}, s.Mobile → ∃ t, command.run s = .ok (.snapshot (go s.timeline).present) t ∧
    ShownAt s (go s.timeline) t

theorem outsideBatch_of_closed (hb : s.inBatch = false) (action : String) :
    outsideBatch action s = .ok () s := by
  simp [outsideBatch, hb]

theorem undo_goes : Command.undo.GoesTo Timeline.undo := by
  intro s h
  obtain ⟨t, htravel, ht⟩ := travel_shows h s.timeline.entries_undo s.timeline.limit_undo
  refine ⟨t, map_of_ok ?_ _, ht⟩
  unfold Session.undo
  rw [bind_of_ok (outsideBatch_of_closed h.closed "undo")]
  exact htravel

theorem redo_goes : Command.redo.GoesTo Timeline.redo := by
  intro s h
  obtain ⟨t, htravel, ht⟩ := travel_shows h s.timeline.entries_redo s.timeline.limit_redo
  refine ⟨t, map_of_ok ?_ _, ht⟩
  unfold Session.redo
  rw [bind_of_ok (outsideBatch_of_closed h.closed "redo")]
  exact htravel

/-- Going on is going to where the last of the two went. -/
theorem ShownAt.trans {here there : Timeline Snapshot} (h : ShownAt s here t)
    (h' : ShownAt t there u) : ShownAt s there u where
  mobile := h'.mobile
  timeline := h'.timeline
  snapshot := h'.snapshot
  preferences := h'.preferences.trans h.preferences
  catalog := h'.catalog.trans h.catalog

theorem Command.eq_of_mem_outcomes {command : Command} {report : Report}
    {outcome : Except Failure Reply} (h : outcome ∈ command.outcomes report) :
    outcome = report.outcome := by
  unfold Command.outcomes at h
  split at h
  · cases h
  · exact List.mem_singleton.1 h

/-- Calls of one such command in a row, at least one of them, all succeed. -/
theorem Command.GoesTo.repeated {command : Command} {go : Timeline Snapshot → Timeline Snapshot}
    (hgo : command.GoesTo go) : ∀ {k : Nat} {s : Session}, s.Mobile →
      ∃ outcomes t, runCommands s (List.replicate (k + 1) command) = (outcomes, t) ∧
        (∀ outcome ∈ outcomes, ∃ shown, outcome = .ok (.snapshot shown)) ∧
        ShownAt s (go^[k + 1] s.timeline) t
  | 0, s, h => by
    obtain ⟨t, hrun, ht⟩ := hgo h
    refine ⟨command.outcomes (.mk (.ok (.snapshot (go s.timeline).present)) t []), t, ?_, ?_, ht⟩
    · simp [runCommands, hrun, Report.ofResult, Report.after]
    · intro outcome hm
      exact ⟨_, Command.eq_of_mem_outcomes hm⟩
  | k + 1, s, h => by
    obtain ⟨t, hrun, ht⟩ := hgo h
    obtain ⟨outcomes, u, hrest, hall, hu⟩ := hgo.repeated (k := k) ht.mobile
    rw [ht.timeline, ← Function.iterate_succ_apply] at hu
    refine ⟨command.outcomes (.mk (.ok (.snapshot (go s.timeline).present)) t []) ++ outcomes, u,
      ?_, ?_, ht.trans hu⟩
    · rw [List.replicate_succ, runCommands, hrun]
      simp [Report.ofResult, Report.after, hrest]
    · intro outcome hm
      rcases List.mem_append.1 hm with hm | hm
      · exact ⟨_, Command.eq_of_mem_outcomes hm⟩
      · exact hall outcome hm

/-! ## Output -/

theorem generate_congr {snapshot other : Snapshot} {catalog catalog' : Catalog}
    (options : Source.Options) (hpage : snapshot.page = other.page)
    (hcatalog : catalog.orBuiltIn = catalog'.orBuiltIn) :
    Source.generate snapshot options catalog = Source.generate other options catalog' := by
  unfold Source.generate
  rw [hpage, hcatalog]

theorem outcome_generate (s : Session) (options : Option Source.Options) (escalates : Bool) :
    ((Step.command (.generate options) escalates).run s).outcome =
      .source <$> Source.generate s.snapshot (options.getD (s.preferences.options {}))
        s.draft.catalog := by
  have hgenerate : Session.generate options s =
      (lift (Source.generate s.snapshot (options.getD (s.preferences.options {}))
        s.draft.catalog) >>= fun source => do
          modify fun s => { s with lastSource := some source }
          return source) s := rfl
  rw [Step.run, Command.run]
  cases h : Source.generate s.snapshot (options.getD (s.preferences.options {}))
      s.draft.catalog with
  | ok source =>
    rw [h] at hgenerate
    rw [map_of_ok (hgenerate.trans (bind_of_ok rfl _))]
    rfl
  | error failure =>
    rw [h] at hgenerate
    rw [map_of_error (hgenerate.trans (bind_of_error rfl _))]
    rfl

theorem Mobile.page_eq (h : s.Mobile) : s.draft.page = s.timeline.present.page :=
  h.coupled.present_of_closed h.closed

/-- The same entry gives the same output. -/
theorem ShownAt.outcome_generate (h : ShownAt s s.timeline t) (hs : s.Mobile)
    (options : Option Source.Options) (escalates : Bool) :
    ((Step.command (.generate options) escalates).run t).outcome =
      ((Step.command (.generate options) escalates).run s).outcome := by
  have hpage : t.snapshot.page = s.snapshot.page := by
    rw [h.snapshot]
    exact hs.page_eq.symm
  rw [Session.outcome_generate, Session.outcome_generate, h.preferences,
    generate_congr _ hpage h.catalog]

/-! ## There and back -/

/-- The step has a change to commit: a command by itself, a batch by some command in it. -/
def Step.Commits (s : Session) : Step → Prop
  | .command single _ => single.Commits s
  | .batch steps _ _ => Mutates s.enter steps

theorem Step.Commits.committed {call : Step} {reply : Reply} (h : call.Commits s)
    (hb : s.inBatch = false) (hok : (call.run s).outcome = .ok reply) :
    (call.run s).after.timeline = s.timeline.commit (call.run s).after.snapshot := by
  cases call with
  | command command escalates => exact commits_of_ok hb h hok
  | batch steps abandon escalates => exact Mutates.committed h hb hok

theorem Mobile.after_step (h : s.Mobile) {call : Step} (hload : call.LoadsKeyed) :
    (call.run s).after.Mobile where
  coupled := (Step.run_follows h.coupled hload).coupled
  settled := invariant_settled.step hload h.settled
  closed := (Step.run_retains s call).inBatch.trans h.closed

theorem Mobile.of_calls {catalog : Catalog} {initial : Snapshot} {limit : Option Int}
    {preferences : Preferences} {start : Session} {steps : List Step} {call : Step}
    (hkeyed : initial.page.Keyed) (htree : initial.page.IsTree) (hsettled : initial.Settled)
    (hstart : Session.start catalog initial limit preferences = .ok start)
    (hload : LoadKeyed steps) (hcall : Calls start steps s call) (hb : s.inBatch = false) :
    s.Mobile where
  coupled := (hcall.coupled (coupled_start hkeyed htree hstart) hload).1
  settled := invariant_settled.calls hcall hload (settled_start hsettled hstart)
  closed := hb

/-- Undos and as many redos. -/
def roundTrip (k : Nat) : List Command :=
  List.replicate k .undo ++ List.replicate k .redo

theorem Mobile.roundTrip (h : s.Mobile) {k : Nat} (hk : k + 1 ≤ s.timeline.cursor) :
    ∃ outcomes t, runCommands s (Session.roundTrip (k + 1)) = (outcomes, t) ∧
      (∀ outcome ∈ outcomes, ∃ shown, outcome = .ok (.snapshot shown)) ∧
      ShownAt s s.timeline t := by
  obtain ⟨back, t, hback, hbacks, ht⟩ := undo_goes.repeated (k := k) h
  obtain ⟨forth, u, hforth, hforths, hu⟩ := redo_goes.repeated (k := k) ht.mobile
  rw [ht.timeline, Timeline.iterate_redo_undo hk] at hu
  refine ⟨back ++ forth, u, ?_, ?_, ht.trans hu⟩
  · rw [Session.roundTrip, runCommands_append, hback, hforth]
  · intro outcome hm
    rcases List.mem_append.1 hm with hm | hm
    · exact hbacks outcome hm
    · exact hforths outcome hm

/-- After a change, where the timeline has room for the entry before it. -/
theorem Mobile.undo_redo (h : t.Mobile) {before : Timeline Snapshot} {entry : Snapshot}
    (hcommit : t.timeline = before.commit entry) (hroom : ∀ k, before.limit = some k → 2 ≤ k) :
    ∃ u v, Command.undo.run t = .ok (.snapshot before.present) u ∧
      u.snapshot = before.present ∧ Command.redo.run u = .ok (.snapshot t.timeline.present) v ∧
      v.snapshot = t.timeline.present := by
  obtain ⟨hcan, hpresent⟩ := Timeline.undo_commit hroom entry
  rw [← hcommit] at hcan hpresent
  obtain ⟨u, hundo, hu⟩ := undo_goes h
  obtain ⟨v, hredo, hv⟩ := redo_goes hu.mobile
  rw [hu.timeline, Timeline.redo_undo hcan] at hredo hv
  rw [hpresent] at hundo
  exact ⟨u, v, hundo, hu.snapshot.trans hpresent, hredo, hv.snapshot⟩

/-- In every session outside batches that a run comes to, undos and as many redos, no more than
there are entries to go back to, all succeed, leave the timeline as it was and do not change what is
generated; and if there are any, the session shows the present entry after them.  A command or a
batch that has changed something is undone to the entry from before and redone to the one it has
committed, unless the timeline keeps one entry only. -/
theorem undo_redo_inverse {catalog : Catalog} {initial : Snapshot} {limit : Option Int}
    {preferences : Preferences} {start : Session} {steps : List Step} {call : Step}
    (hkeyed : initial.page.Keyed) (htree : initial.page.IsTree)
    (hselected : ∀ id ∈ initial.selection, initial.page.contains id = true)
    (hviewport : initial.viewport.isEmpty = false)
    (hstart : Session.start catalog initial limit preferences = .ok start)
    (hload : LoadKeyed steps) (hcall : Calls start steps s call) (hb : s.inBatch = false) :
    (∀ k ≤ s.timeline.cursor, ∃ outcomes t, runCommands s (roundTrip k) = (outcomes, t) ∧
      (∀ outcome ∈ outcomes, ∃ shown, outcome = .ok (.snapshot shown)) ∧
      t.timeline = s.timeline ∧ (1 ≤ k → t.snapshot = s.timeline.present) ∧
      ∀ options escalates, ((Step.command (.generate options) escalates).run t).outcome =
        ((Step.command (.generate options) escalates).run s).outcome) ∧
    ∀ reply, call.Commits s → (call.run s).outcome = .ok reply → s.timeline.limit ≠ some 1 →
      let t := (call.run s).after
      t.timeline.present = t.snapshot ∧
      ∃ u v, Command.undo.run t = .ok (.snapshot s.timeline.present) u ∧
        u.snapshot = s.timeline.present ∧
        Command.redo.run u = .ok (.snapshot t.timeline.present) v ∧
        v.snapshot = t.timeline.present := by
  have hmobile : s.Mobile :=
    .of_calls hkeyed htree ⟨hselected, hviewport⟩ hstart hload hcall hb
  refine ⟨?_, ?_⟩
  · intro k hk
    cases k with
    | zero => exact ⟨[], s, rfl, by simp, rfl, by simp, fun _ _ => rfl⟩
    | succ k =>
      obtain ⟨outcomes, t, hrun, hall, ht⟩ := hmobile.roundTrip hk
      exact ⟨outcomes, t, hrun, hall, ht.timeline, fun _ => ht.snapshot,
        ht.outcome_generate hmobile⟩
  · intro reply hc hok hlimit t
    have hcommit : t.timeline = s.timeline.commit t.snapshot := hc.committed hb hok
    have hload' : call.LoadsKeyed :=
      (hcall.coupled (coupled_start hkeyed htree hstart) hload).2
    -- A limit is positive, so if it is not one the entry from before is still there.
    have hroom : ∀ k, s.timeline.limit = some k → 2 ≤ k := by
      intro k hk
      have hpos := hmobile.settled.limit k hk
      have hne : k ≠ 1 := fun h => hlimit (h ▸ hk)
      omega
    refine ⟨?_, (hmobile.after_step hload').undo_redo hcommit hroom⟩
    rw [hcommit]
    rfl

/-- A timeline of two entries, of which the one before the insertion has lost its selection
since. -/
theorem undo_redo_inverse_pair :
    let initial : Snapshot := ⟨Page.pair, ["el_2"], .standard⟩
    let insertion : Step := .command (.insert (some "el_1") "text" none .empty .empty) false
    let steps : List Step := [.command (.updateProps "el_2" .empty) false,
      .command .clearSelection false, insertion]
    ∃ start s, Session.start .builtIn initial (some 2) {} = .ok start ∧
      Calls start steps s insertion ∧ s.snapshot ≠ s.timeline.present ∧
      (∃ outcomes t, runCommands s (roundTrip 1) = (outcomes, t) ∧ t.timeline = s.timeline ∧
        t.snapshot = s.timeline.present) ∧
      ∃ u, Command.undo.run (insertion.run s).after = .ok (.snapshot s.timeline.present) u ∧
        u.snapshot = s.timeline.present := by
  intro initial insertion steps
  have hrun : ((Session.start .builtIn initial (some 2) {}).toOption.any fun start =>
      let s := (Step.run ((Step.command (.updateProps "el_2" .empty) false).run start).after
        (.command .clearSelection false)).after
      !s.inBatch && 1 ≤ s.timeline.cursor && s.timeline.limit = some 2 &&
        s.snapshot ≠ s.timeline.present &&
        (insertion.run s).outcome.toOption.any fun _ => true) = true := by
    decide +kernel
  obtain ⟨start, hstart, hrun⟩ := exists_of_any hrun
  simp only [Bool.and_eq_true, Bool.not_eq_true', decide_eq_true_eq] at hrun
  obtain ⟨⟨⟨⟨hb, hcursor⟩, hlimit⟩, hpending⟩, hok⟩ := hrun
  have hcall : Calls start steps _ insertion :=
    .later (passedOn_eq_none rfl _) (.later (passedOn_eq_none rfl _) (.first _ insertion []))
  have hload : LoadKeyed steps := by
    simp [steps, insertion, LoadKeyed, Step.LoadsKeyed, Command.LoadsKeyed]
  obtain ⟨hthere, hback⟩ := undo_redo_inverse Page.pair_wellFormed.keyed
    Page.pair_wellFormed.isTree (by decide) (by decide) hstart hload hcall hb
  obtain ⟨outcomes, t, hround, -, htimeline, hsnapshot, -⟩ := hthere 1 hcursor
  obtain ⟨reply, hreply, -⟩ := exists_of_any hok
  obtain ⟨-, u, v, hundo, hu, -⟩ := hback reply trivial hreply (by simp [hlimit])
  exact ⟨start, _, hstart, hcall, hpending,
    ⟨outcomes, t, hround, htimeline, hsnapshot (Nat.le_refl 1)⟩, u, hundo, hu⟩

/-- Where nothing is undone, a selection that has been given up is not the one of the present
entry. -/
theorem undo_redo_inverse_pending :
    let steps : List Step := [.command (.insert none "container" none .empty .empty) false,
      .command .clearSelection false, .command .entries false]
    ∃ start s, Session.start .builtIn .empty none {} = .ok start ∧
      Calls start steps s (.command .entries false) ∧ s.inBatch = false ∧
      ¬ ∀ k ≤ s.timeline.cursor, (runCommands s (roundTrip k)).2.snapshot = s.timeline.present := by
  intro steps
  have hrun : ((Session.start .builtIn .empty none {}).toOption.any fun start =>
      let s := (Step.run ((Step.command (.insert none "container" none .empty .empty) false).run
        start).after (.command .clearSelection false)).after
      !s.inBatch && s.snapshot ≠ s.timeline.present) = true := by
    decide +kernel
  obtain ⟨start, hstart, hrun⟩ := exists_of_any hrun
  simp only [Bool.and_eq_true, Bool.not_eq_true', decide_eq_true_eq] at hrun
  obtain ⟨hb, hpending⟩ := hrun
  have hcall : Calls start steps _ (.command .entries false) :=
    .later (passedOn_eq_none rfl _) (.later (passedOn_eq_none rfl _) (.first _ _ []))
  exact ⟨start, _, hstart, hcall, hb, fun hall => hpending (hall 0 (Nat.zero_le _))⟩

end Session

end PageBuilder
