import PageBuilder.Proofs.Archive.Gate
import PageBuilder.Proofs.Session.Editing
import PageBuilder.Proofs.Session.Ids

/-!
# What can be selected

Whatever is selected is on the page: in the session, in its snapshot and in every entry of its
timeline.  For that each way to change the selection is looked at once, with what it does to the
page: `Leaves` says what an edit leaves selected, `Picks` what is picked by hand, and a snapshot
that is restored is cut down to what its page holds.

How often an id is selected is another matter.  An edit selects one element or takes some out of the
selection, and `addOnce` adds none a second time; but what is loaded is only cut down, so a document
that lists an id twice has it selected twice.  Nothing else does: no id is ever selected more often
than once or than in a document that has been loaded (`selection_of_run`).

The invariant `Selects` covers both.  It is stated for any property of selections that is `Steady`,
since being on the page needs none and the bound is one.
-/

namespace PageBuilder.Session

open Results

variable {catalog : Catalog} {fine : List String → Prop} {page : Page} {start s t : Session}

/-! ## Selections -/

theorem mem_addOnce {chosen ids : List String} {x : String} (h : x ∈ addOnce chosen ids) :
    x ∈ chosen ∨ x ∈ ids := by
  induction ids generalizing chosen with
  | nil => exact .inl h
  | cons id rest ih =>
    rcases ih h with hm | hm
    · dsimp only at hm
      split at hm
      · exact .inl hm
      · rcases List.mem_append.1 hm with hm | hm
        · exact .inl hm
        · exact .inr (List.mem_cons.2 (.inl (List.mem_singleton.1 hm)))
    · exact .inr (List.mem_cons_of_mem _ hm)

theorem count_addOnce_le (chosen ids : List String) (x : String) :
    (addOnce chosen ids).count x ≤ max 1 (chosen.count x) := by
  induction ids generalizing chosen with
  | nil => exact Nat.le_max_right _ _
  | cons id rest ih =>
    refine (ih _).trans (Nat.max_le.2 ⟨Nat.le_max_left _ _, ?_⟩)
    dsimp only
    split
    · exact Nat.le_max_right _ _
    · rename_i hnew
      rw [List.count_append]
      by_cases hx : x = id
      · have hzero : chosen.count x = 0 := by
          rw [hx]
          exact List.count_eq_zero.2 (by simpa using hnew)
        have hone : [id].count x ≤ 1 := List.count_le_length
        omega
      · have hzero : [id].count x = 0 := List.count_eq_zero.2 (by simpa using hx)
        omega

/-- A property of selections that no way to change a selection breaks. -/
structure Steady (fine : List String → Prop) : Prop where
  sublist : ∀ {selection kept : List String}, fine selection → kept.Sublist selection → fine kept
  single : ∀ id, fine [id]
  added : ∀ {chosen : List String} (ids : List String), fine chosen → fine (addOnce chosen ids)

theorem steady_true : Steady fun _ => True :=
  ⟨fun _ _ => trivial, fun _ => trivial, fun _ _ => trivial⟩

theorem steady_count (id : String) {most : Nat} (h : 1 ≤ most) :
    Steady fun selection => selection.count id ≤ most where
  sublist hle hsub := (hsub.count_le id).trans hle
  single _ := List.count_le_length.trans h
  added ids hle := (count_addOnce_le _ ids id).trans (Nat.max_le.2 ⟨h, hle⟩)

/-- What is selected of a page is on it and fine. -/
structure Picked (fine : List String → Prop) (page : Page) (selection : List String) : Prop where
  held : ∀ id ∈ selection, page.contains id = true
  fine : fine selection

theorem Steady.picked_filter (hs : Steady fine) {selection : List String} (h : fine selection)
    (page : Page) : Picked fine page (selection.filter page.contains) where
  held _ hid := (List.mem_filter.1 hid).2
  fine := hs.sublist h List.filter_sublist

/-- An edit leaves selected what is still there, or what it has added. -/
theorem Picked.leaves (hs : Steady fine) {draft after : Draft} {before selection : List String}
    {edit : Draft.Edit} {effect : Draft.Effect} (h : Picked fine draft.page before)
    (hrun : edit.run draft = .ok effect after) (hleaves : Leaves before effect selection) :
    Picked fine after.page selection := by
  cases effect with
  | changed =>
    cases hleaves
    refine ⟨fun id hid => ?_, h.fine⟩
    rcases Draft.Edit.contains_after hrun (h.held id hid) with hc | ⟨ids, heq, -⟩
    · exact hc
    · cases heq
  | added id =>
    cases hleaves
    refine ⟨fun x hx => ?_, hs.single id⟩
    rw [List.mem_singleton.1 hx]
    exact Draft.Edit.contains_of_added hrun
  | removed ids =>
    refine ⟨fun id hid => ?_, hs.sublist h.fine (hleaves.trans List.filter_sublist)⟩
    obtain ⟨hid, hkept⟩ := List.mem_filter.1 (hleaves.subset hid)
    rcases Draft.Edit.contains_after hrun (h.held id hid) with hc | ⟨removed, heq, hm⟩
    · exact hc
    · cases heq
      simp [hm] at hkept

theorem Picked.picks (hs : Steady fine) (h : Picked fine s.draft.page s.selection)
    {selection : List String} (hpicks : s.Picks selection) :
    Picked fine s.draft.page selection := by
  obtain ⟨chosen, ids, hchosen, hids, rfl⟩ := hpicks
  have hbefore : Picked fine s.draft.page chosen := by
    rcases hchosen with rfl | rfl
    · exact ⟨by simp, hs.sublist h.fine (List.nil_sublist _)⟩
    · exact h
  refine ⟨fun id hid => ?_, hs.added ids hbefore.fine⟩
  exact (mem_addOnce hid).elim (hbefore.held id) (hids id)

/-! ## Sessions -/

/-- What is selected in a session, and was in the entries of its timeline, is on the page and
fine. -/
structure Selects (catalog : Catalog) (fine : List String → Prop) (s : Session) : Prop
    extends Intact catalog s where
  now : Picked fine s.draft.page s.selection
  remembered : ∀ entry ∈ s.timeline.entries, Picked fine entry.page entry.selection

namespace Selects

theorem kept (h : Selects catalog fine s) (ht : Intact catalog t) (hdraft : t.draft = s.draft)
    (hselection : t.selection = s.selection)
    (hentries : t.timeline.entries = s.timeline.entries) : Selects catalog fine t where
  toIntact := ht
  now := by
    rw [hdraft, hselection]
    exact h.now
  remembered entry hm := h.remembered entry (hentries ▸ hm)

theorem commit (hs : Steady fine) (h : Selects catalog fine s) :
    Selects catalog fine s.commit where
  toIntact := h.toIntact.commit
  now := h.now
  remembered := by
    intro entry hm
    rcases Timeline.mem_entries_commit hm with rfl | hm
    · exact hs.picked_filter h.now.fine s.draft.page
    · exact h.remembered entry hm

theorem changed (hs : Steady fine) (h : Selects catalog fine s) :
    Selects catalog fine s.changed := by
  unfold Session.changed
  split
  · exact h.kept (h.toIntact.kept rfl h.clipboard rfl) rfl rfl rfl
  · exact h.commit hs

theorem restored (hs : Steady fine) (h : Selects catalog fine s) {snapshot : Snapshot}
    {draft : Draft} (ht : Intact catalog (s.restored snapshot draft))
    (hfine : fine snapshot.selection) : Selects catalog fine (s.restored snapshot draft) where
  toIntact := ht
  now := hs.picked_filter hfine draft.page
  remembered := h.remembered

theorem restore (hs : Steady fine) (h : Selects catalog fine s) {snapshot : Snapshot}
    (hr : Restorable snapshot.page) (hp : Passes catalog.orBuiltIn snapshot.page)
    (hfine : fine snapshot.selection) :
    Selects catalog fine (stateOf (Session.restore snapshot s)) := by
  have hintact := h.toIntact.restore hr hp
  obtain ⟨failure, herror⟩ | ⟨draft, -, hok⟩ := restore_cases snapshot s
  · rw [herror]
    exact h
  · rw [hok] at hintact ⊢
    exact h.restored hs hintact hfine

end Selects

theorem lasting_selects (catalog : Catalog) (hs : Steady fine) :
    Lasting (fun event => (∀ given ∈ event.given, given.page.Keyed) ∧
      ∀ snapshot, event.Loads snapshot → fine snapshot.selection) (Selects catalog fine) where
  move := by
    rintro s t command ⟨hgiven, hloads⟩ h hmove
    -- Only a snapshot that is handed over could be of elements under other ids.
    have hkeyed : command.LoadsKeyed := by
      cases command
      case load origin =>
        cases origin
        case snapshot given => exact hgiven given List.mem_cons_self
        all_goals exact trivial
      all_goals exact trivial
    have ht : Intact catalog t := (invariant_intact catalog).move hkeyed h.toIntact hmove
    cases hmove with
    | edited hedit hrun selection hleaves =>
      have hstep := Draft.run_step h.draft (h.attachesTree hedit) hrun
      exact Selects.changed hs ⟨h.toIntact.edited hstep selection, h.now.leaves hs hrun hleaves,
        h.remembered⟩
    | halted hedit hrun =>
      exact ⟨ht, (Draft.failed_step h.draft hrun).2.symm ▸ h.now, h.remembered⟩
    | loaded hread hcheck hdraft =>
      have hr := restorable_of_checkLoad (keyed_of_origin hkeyed hread) hcheck
      have hproblems := (checkLoad_eq_ok_iff.1 hcheck).2.1
      rw [h.catalog_eq, Catalog.orBuiltIn_orBuiltIn] at hproblems
      refine Selects.changed hs (h.restored hs ?_
        (hloads _ ⟨hread, _, _, run_load hread hcheck hdraft⟩))
      exact h.toIntact.restored hr (fun _ => (Page.problems_eq_nil_iff.1 hproblems).2) hdraft
    | @travelled _ timeline _ hentries _ =>
      have hpresent := hentries ▸ timeline.present_mem_entries
      have hthere : Selects catalog fine { s with timeline := timeline } :=
        h.kept (h.toIntact.kept rfl h.clipboard hentries) rfl rfl hentries
      exact hthere.restore hs (h.entries hpresent) (h.entries_pass _ hpresent)
        (h.remembered _ hpresent).fine
    | selected hedit selection hpicks => exact ⟨ht, h.now.picks hs hpicks, h.remembered⟩
    | kept | copied | set | generated => exact h.kept ht rfl rfl rfl
  enter := by
    intro s h
    have hintact := (invariant_intact catalog).enter h.toIntact
    unfold Session.enter at hintact ⊢
    split at hintact
    · rw [if_pos (by assumption)]
      exact h.kept hintact rfl rfl rfl
    · rw [if_neg (by assumption)]
      exact h.kept hintact rfl rfl rfl
  closed n h := h.kept (h.toIntact.kept rfl h.clipboard rfl) rfl rfl rfl
  commit h := h.commit hs
  restore hopened hu := hu.restore hs hopened.restorable hopened.passes
    (hs.sublist hopened.now.fine List.filter_sublist)

/-- A session that starts empty has nothing selected. -/
theorem selects_start (hs : Steady fine) {limit : Option Int} {preferences : Preferences}
    (h : Session.start catalog .empty limit preferences = .ok start) :
    Selects catalog fine start := by
  have hkeyed : Snapshot.empty.page.Keyed := Page.keyed_of_entries (by decide)
  have hempty : Picked fine Snapshot.empty.page [] :=
    ⟨by simp, hs.sublist (hs.single "") (List.nil_sublist _)⟩
  have hintact : Intact catalog start := intact_start hkeyed (by rfl) h
  obtain ⟨draft, hdraft, rfl⟩ := exists_of_start h
  refine ⟨hintact, ?_, fun entry hm => ?_⟩
  · show Picked fine draft.page []
    rw [(IdSource.ofPage_eq hdraft).2]
    exact hempty
  · rw [List.mem_singleton.1 hm]
    exact hempty

/-! ## Runs -/

/-- Every page of a session with what is selected on it: the page being edited, the snapshot that
would be committed now, and the entries of the timeline. -/
def shown (s : Session) : List Snapshot :=
  ⟨s.draft.page, s.selection, s.viewport⟩ :: s.snapshot :: s.timeline.entries

theorem Selects.picked (hs : Steady fine) (h : Selects catalog fine s) :
    ∀ seen ∈ s.shown, Picked fine seen.page seen.selection := by
  intro seen hseen
  rcases List.mem_cons.1 hseen with rfl | hseen
  · exact h.now
  rcases List.mem_cons.1 hseen with rfl | hseen
  · exact hs.picked_filter h.now.fine s.draft.page
  · exact h.remembered seen hseen

/-- Of a snapshot whose selection is on its page, all of it is selected after the load. -/
theorem selection_of_loads {event : Event} {snapshot : Snapshot} (h : event.Loads snapshot)
    (hheld : ∀ id ∈ snapshot.selection, snapshot.page.contains id = true) :
    event.after.selection = snapshot.selection := by
  obtain ⟨s, origin, draft, -, -, -, hdraft, hafter⟩ := after_of_loads h
  rw [hafter, selection_changed, restored, (IdSource.ofPage_eq hdraft).2]
  exact List.filter_eq_self.2 hheld

/-- In every run from an empty session in which only snapshots that were read are loaded, whatever
is selected is on its page, and no id is selected more often than once or than in the snapshots that
have been loaded.  What is selected in these is selected after the load, as often as it is there. -/
theorem selection_of_run {limit : Option Int} {preferences : Preferences} {steps : List Step}
    {past later : List Event}
    (hstart : Session.start catalog .empty limit preferences = .ok start)
    (hevents : events start steps = past ++ later)
    (hgiven : ∀ event ∈ past, ∀ given ∈ event.given,
      ∃ text other, Archive.read text other = .ok given) :
    (∀ seen ∈ (reached start past).shown,
      (∀ id ∈ seen.selection, seen.page.contains id = true) ∧
      ∀ id most, 1 ≤ most →
        (∀ event ∈ past, ∀ snapshot, event.Loads snapshot → snapshot.selection.count id ≤ most) →
        seen.selection.count id ≤ most) ∧
    ∀ event ∈ past, ∀ snapshot, event.Loads snapshot →
      event.after.selection = snapshot.selection := by
  have hhistory := history_of_events hevents
  have hkeyed : ∀ event ∈ past, ∀ given ∈ event.given, given.page.Keyed := by
    intro event he given hg
    obtain ⟨text, other, hread⟩ := hgiven event he given hg
    exact Archive.keyed_of_read hread
  -- One invariant, twice: nothing is asked of a selection, or how often an id may be in it.
  refine ⟨fun seen hseen => ⟨?_, fun id most hmost hloaded => ?_⟩, fun event he snapshot hl => ?_⟩
  · have hselects := (hhistory.lasting (lasting_selects catalog steady_true)
      (selects_start steady_true hstart) fun e he => ⟨hkeyed e he, fun _ _ => trivial⟩).1
    exact (hselects.picked steady_true seen hseen).held
  · have hsteady := steady_count id hmost
    have hselects := (hhistory.lasting (lasting_selects catalog hsteady)
      (selects_start hsteady hstart) fun e he => ⟨hkeyed e he, hloaded e he⟩).1
    exact (hselects.picked hsteady seen hseen).fine
  · apply selection_of_loads hl
    obtain ⟨s, origin, draft, rfl, hread, -⟩ := after_of_loads hl
    cases origin with
    | snapshot given =>
      obtain ⟨text, other, hgiven⟩ := hgiven _ he given List.mem_cons_self
      cases hread
      exact (Archive.valid_of_read hgiven).1.selected
    | text saved => exact (Archive.valid_of_read hread).1.selected
    | nothing => cases hread

/-- A document with a text in a container, both with ids of its own, and a selection. -/
def pairText (selection : String) : String :=
  "\x7b\"root\":\"a\",\"elements\":\x7b" ++
    "\"a\":\x7b\"kind\":\"container\",\"children\":[\"b\"]\x7d," ++
    "\"b\":\x7b\"kind\":\"text\",\"parent\":\"a\"\x7d\x7d,\"selection\":" ++ selection ++ "\x7d"

/-- A document with the text selected is loaded.  Both elements are added to the selection, the text
is copied, and that is undone: nothing has been selected twice on the way. -/
theorem selection_of_run_pair :
    let commands (given : Snapshot) : List Command :=
      [.load (.snapshot given), .select ["a", "b", "a"] true, .duplicate "b", .undo,
        .select ["a", "a"] true]
    ∃ given start, Archive.read (pairText "[\"b\"]") .builtIn = .ok given ∧
      Session.start .builtIn .empty none {} = .ok start ∧
      let s := reached start (events start ((commands given).map (.command · false)))
      s.selection = ["b", "a"] ∧ s.timeline.length = 3 ∧
        ∀ seen ∈ s.shown, (∀ id ∈ seen.selection, seen.page.contains id = true) ∧
          seen.selection.Nodup := by
  intro commands
  have hrun : ((Archive.read (pairText "[\"b\"]") .builtIn).toOption.any fun given =>
      given.selection = ["b"] &&
      (Session.start .builtIn .empty none {}).toOption.any fun start =>
        let s := reached start (events start ((commands given).map (.command · false)))
        s.selection = ["b", "a"] && s.timeline.length = 3) = true := by
    decide +kernel
  obtain ⟨given, hread, hrun⟩ := exists_of_any hrun
  rw [Bool.and_eq_true, decide_eq_true_eq] at hrun
  obtain ⟨hgiven, hrun⟩ := hrun
  obtain ⟨start, hstart, hrun⟩ := exists_of_any hrun
  simp only [Bool.and_eq_true, decide_eq_true_eq] at hrun
  obtain ⟨hselection, hlength⟩ := hrun
  have honly : ∀ event ∈ events start ((commands given).map (.command · false)),
      (∀ x ∈ event.given, x = given) ∧ ∀ snapshot, event.Loads snapshot → snapshot = given := by
    intro event he
    obtain ⟨u, command, hm, rfl⟩ := exists_call_of_mem he
    simp only [commands, List.mem_cons, List.not_mem_nil, or_false] at hm
    rcases hm with rfl | rfl | rfl | rfl | rfl
    · refine ⟨fun x hx => List.mem_singleton.1 hx, ?_⟩
      rintro snapshot ⟨hread, -⟩
      cases hread
      rfl
    all_goals exact ⟨by simp [Event.given], fun _ h => h.elim⟩
  obtain ⟨hshown, -⟩ := selection_of_run hstart (List.append_nil _).symm fun event he x hx =>
    ⟨_, _, (honly event he).1 x hx ▸ hread⟩
  refine ⟨given, start, hread, hstart, hselection, hlength, fun seen hseen => ?_⟩
  obtain ⟨hheld, hcount⟩ := hshown seen hseen
  refine ⟨hheld, List.nodup_iff_count_le_one.2 fun id => hcount id 1 (Nat.le_refl 1) ?_⟩
  intro event he snapshot hl
  rw [(honly event he).2 snapshot hl, hgiven]
  exact List.count_le_length

/-- A document that lists an element twice is read and loaded, and the element is selected twice, in
the session, in its snapshot and in the entry that the load has committed. -/
theorem selection_of_run_twice :
    ∃ given start, Archive.read (pairText "[\"b\",\"b\"]") .builtIn = .ok given ∧
      Session.start .builtIn .empty none {} = .ok start ∧
      let s := reached start (events start [.command (.load (.snapshot given)) false])
      s.selection = ["b", "b"] ∧ s.snapshot.selection = ["b", "b"] ∧
        s.timeline.present.selection = ["b", "b"] ∧ ∃ seen ∈ s.shown, ¬ seen.selection.Nodup := by
  have hrun : ((Archive.read (pairText "[\"b\",\"b\"]") .builtIn).toOption.any fun given =>
      (Session.start .builtIn .empty none {}).toOption.any fun start =>
        let s := reached start (events start [.command (.load (.snapshot given)) false])
        s.selection = ["b", "b"] && s.snapshot.selection = ["b", "b"] &&
          s.timeline.present.selection = ["b", "b"]) = true := by
    decide +kernel
  obtain ⟨given, hread, hrun⟩ := exists_of_any hrun
  obtain ⟨start, hstart, hrun⟩ := exists_of_any hrun
  simp only [Bool.and_eq_true, decide_eq_true_eq] at hrun
  obtain ⟨⟨hselection, hsnapshot⟩, hpresent⟩ := hrun
  refine ⟨given, start, hread, hstart, hselection, hsnapshot, hpresent, _, List.mem_cons_self, ?_⟩
  rw [hselection]
  simp

end PageBuilder.Session
