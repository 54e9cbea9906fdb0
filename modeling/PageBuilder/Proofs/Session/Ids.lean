import PageBuilder.Proofs.Session.Events

/-!
# Ids are never used again

One source of ids goes through a whole session: every draft that is made of a snapshot, by loading,
undo, redo or the end of a failed batch, carries it on from where it was.  So the source can be
compared with everything that has been in the session, pages that are long forgotten included.  The
invariant `Unused` says that it is ahead of all of it.  That is kept because a source that has moved
on is still ahead of the pages it was ahead of, and one that a snapshot is restored with is moved
past the ids of that snapshot, whatever they look like.
-/

namespace PageBuilder

open Results

namespace Session

variable {start s t : Session} {ids : IdSource}

/-! ## Sources ahead of a session -/

/-- A page of a session: the one being edited, or that of an entry of the timeline. -/
def Holds (s : Session) (page : Page) : Prop :=
  page = s.draft.page ∨ ∃ entry ∈ s.timeline.entries, page = entry.page

/-- No id that a source is still to hand out is in use in a session. -/
def AheadOf (ids : IdSource) (s : Session) : Prop :=
  ∀ page, s.Holds page → ids.Ahead page

theorem AheadOf.advances {before after : Draft} (h : AheadOf before.ids s)
    (ha : Draft.Advances before after) : AheadOf after.ids s :=
  fun page hp => ha.ahead (h page hp)

/-- Only the page and the timeline count. -/
theorem AheadOf.congr (h : AheadOf ids s) (hpage : t.draft.page = s.draft.page)
    (htimeline : t.timeline.entries = s.timeline.entries) : AheadOf ids t := by
  rintro page (rfl | ⟨entry, hm, rfl⟩)
  · exact h _ (Or.inl hpage)
  · exact h _ (Or.inr ⟨entry, htimeline ▸ hm, rfl⟩)

theorem Holds.of_commit {page : Page} (h : s.commit.Holds page) : s.Holds page := by
  rcases h with rfl | ⟨entry, hm, rfl⟩
  · exact Or.inl rfl
  · rcases Timeline.mem_entries_commit hm with rfl | hm
    · exact Or.inl rfl
    · exact Or.inr ⟨entry, hm, rfl⟩

theorem Holds.of_changed {page : Page} (h : s.changed.Holds page) : s.Holds page := by
  unfold Session.changed at h
  split at h
  · exact h
  · exact h.of_commit

theorem AheadOf.commit (h : AheadOf ids s) : AheadOf ids s.commit :=
  fun page hp => h page hp.of_commit

theorem AheadOf.changed (h : AheadOf ids s) : AheadOf ids s.changed :=
  fun page hp => h page hp.of_changed

theorem aheadOf_withDraft {after : Draft} (h : AheadOf s.draft.ids s)
    (hgrows : Draft.Grows s.draft after) : AheadOf after.ids (s.withDraft after) := by
  rintro page (rfl | hm)
  · exact hgrows.ahead (h _ (Or.inl rfl))
  · exact hgrows.advances.ahead (h _ (Or.inr hm))

theorem aheadOf_restored {snapshot : Snapshot} {draft : Draft} (h : AheadOf s.draft.ids s)
    (hdraft : Draft.ofPage s.draft.catalog s.draft.ids snapshot.page = .ok draft) :
    AheadOf draft.ids (s.restored snapshot draft) := by
  have hn : 0 ≤ s.draft.ids.next := (h _ (Or.inl rfl)).next_nonneg
  rintro page (rfl | hm)
  · show draft.ids.Ahead draft.page
    rw [(IdSource.ofPage_eq hdraft).2]
    exact Draft.ahead_of_ofPage hn hdraft
  · exact (Draft.ofPage_advances hdraft).ahead (h _ (Or.inr hm))

theorem aheadOf_restore (snapshot : Snapshot) (h : AheadOf s.draft.ids s) :
    AheadOf (stateOf (restore snapshot s)).draft.ids (stateOf (restore snapshot s)) := by
  rcases restore_cases snapshot s with ⟨failure, hr⟩ | ⟨draft, hdraft, hr⟩
  · rw [hr]
    exact h
  · rw [hr]
    exact aheadOf_restored h hdraft

/-! ## Events -/

theorem Move.aheadOf {command : Command} (h : Move s command t) (hs : AheadOf s.draft.ids s) :
    AheadOf t.draft.ids t := by
  cases h with
  | kept => exact hs
  | edited _ hrun selection =>
    have hgrows := Draft.Edit.grows_of_run hrun
    rw [draft_changed]
    exact AheadOf.changed ((aheadOf_withDraft hs hgrows).congr rfl rfl)
  | halted _ hrun => exact aheadOf_withDraft hs (Draft.Edit.grows_of_failed hrun)
  | loaded _ _ hdraft =>
    rw [draft_changed]
    exact (aheadOf_restored hs hdraft).changed
  | travelled _ hentries => exact aheadOf_restore _ (hs.congr rfl hentries)
  | copied | selected | set | generated => exact hs.congr rfl rfl

theorem aheadOf_enter (hs : AheadOf s.draft.ids s) : AheadOf s.enter.draft.ids s.enter := by
  unfold enter
  split <;> exact hs.congr rfl rfl

theorem aheadOf_leave {opened : Session} {result : EStateM.Result Failure Session Reply}
    (h : AheadOf (stateOf result).draft.ids (stateOf result)) :
    AheadOf (stateOf (opened.leave result)).draft.ids (stateOf (opened.leave result)) := by
  apply @stateOf_leave _ fun t => AheadOf t.draft.ids t
  case hclosed => exact fun n => h.congr rfl rfl
  case hcommit => exact AheadOf.commit
  -- Whatever page comes back, the source is moved past its ids once more.
  case hrestore => exact aheadOf_restore _

theorem Event.aheadOf (event : Event) (h : AheadOf event.before.draft.ids event.before) :
    AheadOf event.after.draft.ids event.after := by
  cases event with
  | call s command => exact (command.run_moves s).aheadOf h
  | enter s => exact aheadOf_enter h
  | leave opened result => exact aheadOf_leave h

theorem Event.advances (event : Event) :
    Draft.Advances event.before.draft event.after.draft := by
  cases event with
  | call s command => exact (command.run_retains s).draft
  | enter s => exact advances_enter s
  | leave opened result => exact advances_leave opened result

theorem History.advances {past later : List Event} (h : History start (past ++ later) s) :
    Draft.Advances (reached start past).draft s.draft := by
  induction later using List.reverseRecOn generalizing s with
  | nil =>
    rw [List.append_nil] at h
    rw [h.reached_eq]
    exact .refl _
  | append_singleton later event ih =>
    rw [← List.append_assoc] at h
    obtain ⟨hbefore, -, rfl⟩ := h.split
    exact (ih hbefore).trans event.advances

/-- The ids of new elements have been handed out during the event. -/
theorem Event.handedOut_of_created {event : Event} {id : String} (h : id ∈ event.created) :
    event.before.draft.ids.HandedOut event.after.draft.ids id := by
  cases event with
  | call s command =>
    obtain ⟨edit, effect, after, hedit, hrun, hcreated⟩ := exists_edit_of_created h
    have hdraft := (command.run_moves s).draft_eq hedit
    rw [Event.created, hcreated] at h
    show s.draft.ids.HandedOut (stateOf (command.run s)).draft.ids id
    rw [hdraft, hrun, stateOf, Draft.Edit.ids_of_run hrun]
    exact IdSource.handedOut_drawMany_iff.2 h
  | enter s => cases h
  | leave opened result => cases h

/-! ## Histories -/

/-- The source of a session is ahead of everything that has been in the session. -/
structure Unused (start : Session) (past : List Event) (s : Session) : Prop where
  start : AheadOf s.draft.ids start
  present : AheadOf s.draft.ids s
  passed : ∀ event ∈ past, AheadOf s.draft.ids event.before ∧ AheadOf s.draft.ids event.after
  created : ∀ event ∈ past, ∀ id ∈ event.created, ∀ later : IdSource,
    ¬ s.draft.ids.HandedOut later id

theorem History.unused {past : List Event} (h : History start past s)
    (hstart : AheadOf start.draft.ids start) : Unused start past s := by
  induction h with
  | start => exact ⟨hstart, hstart, by simp, by simp⟩
  | @next past event h hclose ih =>
    have hadvances := event.advances
    have hbefore := ih.present.advances hadvances
    have hafter := event.aheadOf ih.present
    refine ⟨ih.start.advances hadvances, hafter, ?_, ?_⟩
    · intro e he
      rcases List.mem_append.1 he with he | he
      · exact ⟨(ih.passed e he).1.advances hadvances, (ih.passed e he).2.advances hadvances⟩
      · cases List.mem_singleton.1 he
        exact ⟨hbefore, hafter⟩
    · intro e he id hid later hout
      rcases List.mem_append.1 he with he | he
      · exact ih.created e he id hid later
          (hout.mono hadvances.stem hadvances.next_le (Int.le_refl _))
      · cases List.mem_singleton.1 he
        have hn := (ih.present _ (Or.inl rfl)).next_nonneg
        exact (event.handedOut_of_created hid).not_handedOut hn hadvances.stem (Int.le_refl _) hout

theorem aheadOf_start {catalog : Catalog} {initial : Snapshot} {limit : Option Int}
    {preferences : Preferences}
    (h : Session.start catalog initial limit preferences = .ok start) :
    AheadOf start.draft.ids start ∧ start.draft.page = initial.page := by
  obtain ⟨draft, hdraft, rfl⟩ := exists_of_start h
  have hpage := (IdSource.ofPage_eq hdraft).2
  have hahead : draft.ids.Ahead initial.page :=
    Draft.ahead_of_ofPage (Int.le_of_lt Int.one_pos) hdraft
  refine ⟨?_, hpage⟩
  rintro page (rfl | ⟨entry, hm, rfl⟩)
  · rwa [hpage]
  · cases List.mem_singleton.1 hm
    exact hahead

/-! ## New elements -/

theorem after_of_loads {event : Event} {snapshot : Snapshot} (h : event.Loads snapshot) :
    ∃ s origin draft, event = .call s (.load origin) ∧
      origin.read s.draft.catalog = .ok snapshot ∧ checkLoad s.draft.catalog snapshot = .ok () ∧
      Draft.ofPage s.draft.catalog s.draft.ids snapshot.page = .ok draft ∧
      event.after = (s.restored snapshot draft).changed := by
  cases event with
  | enter | leave => exact h.elim
  | call s command =>
    cases command
    case load origin =>
      obtain ⟨hread, reply, t, hrun⟩ := h
      obtain ⟨given, draft, hgiven, hcheck, hdraft, rfl⟩ := loaded_of_ok hrun
      cases hread.symm.trans hgiven
      refine ⟨s, origin, draft, rfl, hread, hcheck, hdraft, ?_⟩
      show stateOf ((Command.load origin).run s) = _
      rw [hrun, stateOf]
    all_goals exact h.elim

/-- A new draft is made of a snapshot that is loaded. -/
theorem exists_of_loads {event : Event} {snapshot : Snapshot} (h : event.Loads snapshot) :
    ∃ draft, Draft.ofPage event.before.draft.catalog event.before.draft.ids snapshot.page =
      .ok draft ∧ event.after.draft = draft ∧ event.created = [] := by
  obtain ⟨s, origin, draft, rfl, -, -, hdraft, hafter⟩ := after_of_loads h
  refine ⟨draft, hdraft, ?_, rfl⟩
  rw [hafter, draft_changed]
  rfl

theorem page_of_loads {event : Event} {snapshot : Snapshot} (h : event.Loads snapshot) :
    event.after.draft.page = snapshot.page := by
  obtain ⟨draft, hdraft, hafter, -⟩ := exists_of_loads h
  rw [hafter]
  exact (IdSource.ofPage_eq hdraft).2

/-- A command that brings elements in from elsewhere, under the ids they have. -/
def Command.Brings : Command → Prop
  | .load _ => True
  | command => command.Travels

/-- All other commands add elements under new ids only. -/
theorem Move.contains_cases {command : Command} (h : Move s command t) (hb : ¬ command.Brings)
    {id : String} (hc : t.draft.page.contains id = true) :
    s.draft.page.contains id = true ∨ id ∈ command.created s := by
  cases h with
  | edited hedit hrun selection =>
    rw [draft_changed] at hc
    rw [created_eq hedit hrun]
    exact Draft.Edit.contains_of_run hrun hc
  | halted hedit hrun => exact Or.inl (Draft.Edit.contains_of_failed hrun hc)
  | loaded => exact absurd trivial hb
  | travelled ht => cases command <;> first | exact ht.elim | exact absurd trivial hb
  | kept | copied | selected | set | generated => exact Or.inl hc

theorem Event.nodup_created {event : Event}
    (h : event.before.draft.ids.Ahead event.before.draft.page) : event.created.Nodup := by
  cases hids : event.created with
  | nil => exact List.nodup_nil
  | cons id rest =>
    cases event with
    | enter | leave => cases hids
    | call s command =>
      have hid : id ∈ command.created s := by
        rw [show command.created s = id :: rest from hids]
        exact List.mem_cons_self
      obtain ⟨edit, effect, after, hedit, hrun, hcreated⟩ := exists_edit_of_created hid
      obtain ⟨-, hnodup, -⟩ := @IdSource.drawMany_fresh _ _ h edit.draws _ _ rfl
      rw [← hids]
      show (command.created s).Nodup
      rw [hcreated]
      exact hnodup

/-- The ids of the elements that an event makes, after all that has happened before. -/
structure Fresh (initial : Snapshot) (earlier : List Event) (event : Event) : Prop where
  /-- They differ from each other. -/
  nodup : event.created.Nodup
  initial : ∀ id ∈ event.created, initial.page.contains id = false
  /-- No page has them or has had them, neither the one being edited nor one in a timeline. -/
  pages : ∀ u, (u = event.before ∨ ∃ e ∈ earlier, u = e.before ∨ u = e.after) →
    ∀ page, u.Holds page → ∀ id ∈ event.created, page.contains id = false
  loaded : ∀ e ∈ earlier, ∀ snapshot, e.Loads snapshot →
    ∀ id ∈ event.created, snapshot.page.contains id = false
  /-- No element has been made under them, not even one that was dropped again at once. -/
  created : ∀ e ∈ earlier, ∀ id ∈ event.created, id ∉ e.created
  /-- There are no new elements under other ids. -/
  added : ∀ {s command}, event = .call s command → ¬ command.Brings →
    ∀ id, event.after.draft.page.contains id = true →
      s.draft.page.contains id = true ∨ id ∈ event.created
  answered : ∀ {s command id t}, event = .call s command →
    command.run s = .ok (.id (some id)) t → id ∈ event.created

/-- In every run from whatever snapshot a session can be started from, with elements under
whatever ids, every new element gets an id that nothing in the session has or has had. -/
theorem ids_never_reused {catalog : Catalog} {initial : Snapshot} {limit : Option Int}
    {preferences : Preferences} {steps : List Step} {earlier later : List Event} {event : Event}
    (hstart : Session.start catalog initial limit preferences = .ok start)
    (hevents : events start steps = earlier ++ event :: later) :
    Fresh initial earlier event := by
  obtain ⟨hahead, hpage⟩ := aheadOf_start hstart
  have hhistory : History start (earlier ++ [event]) (reached start (earlier ++ [event])) := by
    apply history_of_events
    rw [hevents, List.append_assoc]
    rfl
  -- Whatever the event hands out lies ahead of everything that has been there.
  have hunused := hhistory.split.1.unused hahead
  have hfree {page : Page} (hp : event.before.draft.ids.Ahead page) :
      ∀ id ∈ event.created, page.contains id = false :=
    fun id hid => (Event.handedOut_of_created hid).not_contains hp
  constructor
  case nodup => exact Event.nodup_created (hunused.present _ (Or.inl rfl))
  case initial => exact hfree (hunused.start _ (Or.inl hpage.symm))
  case pages =>
    rintro u (rfl | ⟨e, he, rfl | rfl⟩) page hp
    · exact hfree (hunused.present page hp)
    · exact hfree ((hunused.passed e he).1 page hp)
    · exact hfree ((hunused.passed e he).2 page hp)
  case loaded =>
    intro e he snapshot hl
    exact hfree ((hunused.passed e he).2 _ (Or.inl (page_of_loads hl).symm))
  case created =>
    intro e he id hid hid'
    exact hunused.created e he id hid' _ (Event.handedOut_of_created hid)
  case added =>
    rintro s command rfl hb id hc
    exact (command.run_moves s).contains_cases hb hc
  case answered =>
    rintro s command id t rfl hrun
    exact Command.mem_created_of_reply hrun

/-- Ids with leading zeros, with digits of another script and with a letter behind the number. -/
def oddPage : Page :=
  { elements := .ofList [
      ("el_007", ⟨"el_007", "container", .empty, .empty, ["el_٩", "el_99x"], none⟩),
      ("el_٩", ⟨"el_٩", "text", .empty, .empty, [], some "el_007"⟩),
      ("el_99x", ⟨"el_99x", "text", .empty, .empty, [], some "el_007"⟩)]
    root := some "el_007" }

/-- A copy of an element that was undone, pasted in a batch that is given up and once more after it,
and a duplicate of the second copy. -/
theorem ids_never_reused_odd :
    let initial : Snapshot := ⟨oddPage, [], .standard⟩
    let steps : List Step := [
      .command (.insert (some "el_007") "text" none .empty .empty) false,
      .command (.copy "el_10") false, .command .undo false,
      .batch [.command (.paste none none) false] (some "stop") false,
      .command (.paste none none) false, .command (.duplicate "el_12") false]
    ∃ start earlier event later, Session.start .builtIn initial none {} = .ok start ∧
      events start steps = earlier ++ event :: later ∧
      earlier.map Event.created = [["el_10"], [], [], [], ["el_11"], [], ["el_12"]] ∧
      event.created = ["el_13"] ∧ Fresh initial earlier event := by
  intro initial steps
  have hrun : ((Session.start .builtIn initial none {}).toOption.any fun start =>
      (events start steps).map Event.created ==
        [["el_10"], [], [], [], ["el_11"], [], ["el_12"]] ++ [["el_13"]]) = true := by
    decide +kernel
  obtain ⟨start, hstart, hrun⟩ := exists_of_any hrun
  obtain ⟨earlier, rest, hevents, hearlier, hrest⟩ := List.map_eq_append_iff.1 (beq_iff_eq.1 hrun)
  obtain ⟨event, later, rfl, hcreated, -⟩ := List.map_eq_cons_iff.1 hrest
  exact ⟨start, earlier, event, later, hstart, hevents, hearlier, hcreated,
    ids_never_reused hstart hevents⟩

end Session

end PageBuilder
