import PageBuilder.Proofs.Archive.Keys
import PageBuilder.Proofs.Draft.Atomic
import PageBuilder.Proofs.Session.Invariants

/-!
# What has been loaded can be edited

The checks of a load imply what every edit and every undo relies on, as far as elements are stored
under their own ids: that is the one thing which they do not look at.  `Intact` collects what has to
be kept for that.  All pages a session can come back to are good ones, those on its timeline
included, since an undo may restore any of them long after the load.

On such a session an edit is carried out and leaves another one, or it is turned down with a reason
and changes nothing (`Command.Edits.cases`).
-/

namespace PageBuilder.Session

open Results

variable {α β : Type} {s t u : Session} {catalog : Catalog}

/-! ## Sessions that stay good for editing -/

/-- The check of structure has nothing against the elements of a page, unless the catalog makes new
elements that it has something against. -/
def Passes (catalog : Catalog) (page : Page) : Prop :=
  catalog.DefaultsKnown → Page.Admits catalog page false

/-- Every page a session edits or remembers passes the check of structure. -/
structure Intact (catalog : Catalog) (s : Session) : Prop extends Sound s where
  catalog_eq : s.draft.catalog = catalog.orBuiltIn
  passes : Passes catalog.orBuiltIn s.draft.page
  entries_pass : ∀ entry ∈ s.timeline.entries, Passes catalog.orBuiltIn entry.page

namespace Intact

theorem isTree (h : Intact catalog s) : s.draft.page.IsTree :=
  h.draft.linked.isTree

theorem problems (h : Intact catalog s) (hd : catalog.orBuiltIn.DefaultsKnown) :
    s.draft.page.problems catalog.orBuiltIn false = [] :=
  Page.problems_eq_nil_iff.2 ⟨h.isTree, h.passes hd⟩

/-- Only the draft, the clipboard and the entries matter. -/
theorem kept (h : Intact catalog s) (hdraft : t.draft = s.draft)
    (hclipboard : ∀ {nodes}, t.clipboard = some nodes → Page.Detached nodes)
    (hentries : t.timeline.entries = s.timeline.entries) : Intact catalog t where
  draft := hdraft ▸ h.draft
  stem := hdraft ▸ h.stem
  clipboard := hclipboard
  entries hm := h.entries (hentries ▸ hm)
  catalog_eq := hdraft ▸ h.catalog_eq
  passes := hdraft ▸ h.passes
  entries_pass entry hm := h.entries_pass entry (hentries ▸ hm)

theorem commit (h : Intact catalog s) : Intact catalog s.commit where
  toSound := h.toSound.commit.toSound
  catalog_eq := h.catalog_eq
  passes := h.passes
  entries_pass := by
    intro entry hm
    rcases Timeline.mem_entries_commit hm with rfl | hm
    · exact h.passes
    · exact h.entries_pass entry hm

theorem changed (h : Intact catalog s) : Intact catalog s.changed := by
  unfold Session.changed
  split
  · exact h.kept rfl h.clipboard rfl
  · exact h.commit

/-- Another page is edited from now on. -/
theorem restored (h : Intact catalog s) {snapshot : Snapshot} {draft : Draft}
    (hr : Restorable snapshot.page) (hp : Passes catalog.orBuiltIn snapshot.page)
    (hdraft : Draft.ofPage s.draft.catalog s.draft.ids snapshot.page = .ok draft) :
    Intact catalog (s.restored snapshot draft) := by
  obtain ⟨hcatalog, hpage⟩ := IdSource.ofPage_eq hdraft
  refine ⟨h.toSound.restored hr.keyed hr.linked hdraft, ?_, ?_, h.entries_pass⟩
  · show draft.catalog = catalog.orBuiltIn
    rw [hcatalog, h.catalog_eq, Catalog.orBuiltIn_orBuiltIn]
  · show Passes catalog.orBuiltIn draft.page
    rwa [hpage]

theorem restore (h : Intact catalog s) {snapshot : Snapshot} (hr : Restorable snapshot.page)
    (hp : Passes catalog.orBuiltIn snapshot.page) :
    Intact catalog (stateOf (Session.restore snapshot s)) := by
  obtain ⟨failure, herror⟩ | ⟨draft, hdraft, hok⟩ := restore_cases snapshot s
  · rw [herror]
    exact h
  · rw [hok]
    exact h.restored hr hp hdraft

theorem edited (h : Intact catalog s) {after : Draft} (hstep : Draft.Step s.draft after)
    (selection : List String) : Intact catalog ((s.withDraft after).selecting selection) where
  toSound := h.toSound.edited hstep selection
  catalog_eq := hstep.catalog.trans h.catalog_eq
  passes := by
    intro hd _ _ he
    have hadmits := @hstep.admits false
    rw [h.catalog_eq] at hadmits
    exact hadmits hd (h.passes hd) he
  entries_pass := h.entries_pass

end Intact

/-- Each kind of move keeps a session intact, and so does what batches do. -/
theorem invariant_intact (catalog : Catalog) : Invariant (Intact catalog) where
  move := by
    intro s t command hload h hmove
    cases hmove with
    | edited hedit hrun selection =>
      exact (h.edited (Draft.run_step h.draft (h.attachesTree hedit) hrun) selection).changed
    | halted hedit hrun =>
      exact h.edited (Draft.failed_step h.draft hrun).1 s.selection
    | loaded hread hcheck hdraft =>
      have hr := restorable_of_checkLoad (keyed_of_origin hload hread) hcheck
      -- The check of a load leaves kinds out, as the invariant does.
      have hproblems := (checkLoad_eq_ok_iff.1 hcheck).2.1
      rw [h.catalog_eq, Catalog.orBuiltIn_orBuiltIn] at hproblems
      exact (h.restored hr (fun _ => (Page.problems_eq_nil_iff.1 hproblems).2) hdraft).changed
    | @travelled _ timeline _ hentries _ =>
      -- What an undo or a redo shows was an entry before.
      have hpresent := hentries ▸ timeline.present_mem_entries
      have hthere : Intact catalog { s with timeline := timeline } :=
        h.kept rfl h.clipboard hentries
      exact hthere.restore (h.entries hpresent) (h.entries_pass _ hpresent)
    | copied hcopy => exact h.kept rfl (h.toSound.copied hcopy).clipboard rfl
    | kept | selected | set | generated => exact h.kept rfl h.clipboard rfl
  enter := by
    intro s h
    refine h.kept ?_ ?_ (congrArg _ (timeline_enter s))
    all_goals
      unfold Session.enter
      split
    · rfl
    · rfl
    · exact h.clipboard
    · exact h.clipboard
  closed n h := h.kept rfl h.clipboard rfl
  commit h := h.commit
  restore hs hu := hu.restore hs.restorable hs.passes

/-! ## How an edit ends -/

/-- The operations that edit a page, and the undo. -/
def Command.Edits : Command → Prop
  | .insert .. | .move .. | .updateProps .. | .updateStyle .. | .remove .. => True
  | .duplicate .. | .copy .. | .paste .. | .clear | .undo => True
  | _ => False

theorem Command.Edits.loadsKeyed {command : Command} (h : command.Edits) :
    command.LoadsKeyed := by
  cases command <;> first | exact h.elim | exact trivial

/-- The command changes nothing and gives a reason, or it is an undo inside a batch. -/
def Command.Declines (command : Command) (s : Session) : Prop :=
  (∃ reason, command.run s = .error (.rejected reason) s) ∨
    command = .undo ∧ s.inBatch = true ∧ command.run s = .error (.batchOpen "undo") s

/-- The command wants a text that is not to be had, and changes nothing; or the ids do not last for
what it copies, and it leaves the page as it is. -/
def Command.WantsText (command : Command) (s : Session) : Prop :=
  ∃ edit, command.edit? s = some edit ∧
    ((∃ fault, edit.LacksText s.draft fault ∧ command.run s = .error (.noText fault) s) ∨
      ∃ ids, s.draft.ids.exhausted? edit.draws = some ids ∧
        command.run s = .error (.noText .longInteger) (s.withDraft { s.draft with ids := ids }))

theorem undo_cases (h : s.Sound) :
    (∃ reply t, Command.undo.run s = .ok reply t) ∨ Command.undo.Declines s := by
  cases hb : s.inBatch with
  | true =>
    refine Or.inr (Or.inr ⟨rfl, hb, map_of_error (bind_of_error ?_ _) _⟩)
    simp [outsideBatch, hb]
  | false =>
    obtain ⟨t, -, htravel, -⟩ := h.travel_eq s.timeline.entries_undo
    have hclosed : outsideBatch "undo" s = .ok () s := by simp [outsideBatch, hb]
    exact Or.inl ⟨_, t, map_of_ok ((bind_of_ok hclosed _).trans htravel) _⟩

/-- What has to be looked up for a call is found, or the call is turned down. -/
theorem declines_of_rejected {command : Command} {result : Except Failure α} {f : α → Action β}
    {g : β → Reply} (hrun : command.run s = (g <$> (lift result >>= f)) s) (h : Rejected result) :
    command.Declines s := by
  obtain ⟨reason, rfl, -⟩ := h
  exact Or.inl ⟨reason, hrun.trans (map_of_error (bind_of_error rfl f) g)⟩

/-- An edit is carried out, or it is declined, or it wants a text; there is no half-way. -/
theorem Command.Edits.cases {command : Command} (h : s.Sound) (hedits : command.Edits) :
    (∃ reply t, command.run s = .ok reply t) ∨ command.Declines s ∨ command.WantsText s := by
  cases hedit : command.edit? s with
  | some edit =>
    have hgoes := Command.run_goesWith hedit
    unfold GoesWith at hgoes
    rcases Draft.run_cases h.draft.linked h.draft.keyed edit with
      (⟨reason, hno, -⟩ | ⟨fault, hno, hfault⟩) | ⟨ids, hids, hno⟩ | ⟨effect, after, hok⟩
    · rw [hno] at hgoes
      exact Or.inr (Or.inl (Or.inl ⟨reason, hgoes⟩))
    · rw [hno] at hgoes
      exact Or.inr (Or.inr ⟨edit, hedit, Or.inl ⟨fault, hfault, hgoes⟩⟩)
    · rw [hno] at hgoes
      exact Or.inr (Or.inr ⟨edit, hedit, Or.inr ⟨ids, hids, hgoes⟩⟩)
    · rw [hok] at hgoes
      exact Or.inl hgoes
  -- A call that comes to no edit has found nothing to do, or nothing to plan with.
  | none =>
    cases command with
    | insert | move | updateProps | updateStyle | remove => cases hedit
    | duplicate id =>
      rcases planDuplicate_cases h.draft.linked h.draft.keyed id with
        hno | ⟨parent, host, nodes, place, -, -, -, hplan⟩
      · exact Or.inr (Or.inl (declines_of_rejected rfl hno))
      · rw [Command.edit?, hplan] at hedit
        cases hedit
    | copy id =>
      rcases Draft.copy_cases h.draft.linked h.draft.keyed id with hno | ⟨nodes, hcopy⟩
      · exact Or.inr (Or.inl (declines_of_rejected rfl hno))
      · exact Or.inl ⟨.done, _, run_copy hcopy⟩
    | paste parent index =>
      refine Or.inl ⟨.id none, s, map_of_ok ?_ _⟩
      rw [Session.paste, bind_of_ok (get_eq s), Option.map_eq_none_iff.1 hedit]
      rfl
    | clear =>
      have hempty : s.draft.page.isEmpty = true := by
        by_contra hne
        rw [Command.edit?, if_neg hne] at hedit
        cases hedit
      have hclear : Session.clear s = .ok () s := by
        rw [Session.clear, bind_of_ok (get_eq s), if_pos hempty]
        rfl
      exact Or.inl ⟨.done, s, map_of_ok hclear _⟩
    | undo => exact (undo_cases h).imp_right Or.inl
    | load | redo | select | clearSelection | setViewport | setZoom | generate | save | entries
    | ask => exact hedits.elim

/-- What is removed is the element and all below it; everything else is still there. -/
theorem removed_of_ok (h : s.Sound) {id : String} {reply : Reply}
    (hrun : (Command.remove id).run s = .ok reply t) :
    ∃ ids, reply = .removed ids ∧ (∀ x, x ∈ ids ↔ s.draft.page.Reaches id x) ∧
      ∀ x, t.draft.page.contains x = true ↔ s.draft.page.contains x = true ∧ x ∉ ids := by
  obtain ⟨ids, hremove, rfl⟩ := exists_of_map_ok hrun
  refine ⟨ids, rfl, ?_⟩
  rcases Draft.remove_cases h.draft.linked h.draft.keyed id with
    (⟨reason, hno, -⟩ | ⟨_, _, hno⟩) | ⟨ids', old, after, hok, hmem, -, -, hpruned⟩
  · rw [Session.remove, bind_of_error (onDraft_of_error hno)] at hremove
    cases hremove
  · exact hno.elim
  · rw [Session.remove, bind_of_ok (onDraft_of_ok hok)] at hremove
    cases hremove
    refine ⟨hmem, fun x => ?_⟩
    rw [draft_changed, hmem]
    constructor
    · intro hx
      obtain ⟨f, hf⟩ := Page.contains_iff_get?.1 hx
      obtain ⟨hr, e, he, -⟩ := hpruned.get?_page h.draft.linked hf
      exact ⟨Page.contains_iff_get?.2 ⟨e, he⟩, hr⟩
    · rintro ⟨hx, hr⟩
      obtain ⟨e, he⟩ := Page.contains_iff_get?.1 hx
      obtain ⟨f, hf, -⟩ := hpruned.get?_kept h.draft.linked he hr
      exact Page.contains_iff_get?.2 ⟨f, hf⟩

/-! ## After a load -/

theorem intact_start {initial : Snapshot} {limit : Option Int} {preferences : Preferences}
    (hkeyed : initial.page.Keyed) (hinitial : initial.page.problems catalog.orBuiltIn false = [])
    (hstart : Session.start catalog initial limit preferences = .ok s) : Intact catalog s := by
  obtain ⟨htree, hadmits⟩ := Page.problems_eq_nil_iff.1 hinitial
  have hcoupled := coupled_start hkeyed htree hstart
  unfold start at hstart
  split at hstart
  · cases hstart
  · rename_i draft hdraft
    cases hstart
    obtain ⟨hcatalog, hpage⟩ := IdSource.ofPage_eq hdraft
    refine ⟨hcoupled.toSound, hcatalog, fun _ => hpage ▸ hadmits, fun entry hm => ?_⟩
    rw [List.mem_singleton.1 hm]
    exact fun _ => hadmits

/-- Whatever has been done before and after a load of elements stored under their own ids: an edit
leaves a tree in which the check of structure finds nothing, unless the catalog makes elements that
it has something against, and a removal has removed the element and all below it; or else the edit
is declined and changes nothing, or wants a text that is not to be had and leaves the page alone. -/
theorem edits_after_load {initial snapshot : Snapshot} {limit : Option Int}
    {preferences : Preferences} {start : Session} {steps : List Step} {call : Step} {reply : Reply}
    {later : List Command} {next : Command} (hkeyed : initial.page.Keyed)
    (hinitial : initial.page.problems catalog.orBuiltIn false = [])
    (hstart : Session.start catalog initial limit preferences = .ok start)
    (hload : LoadKeyed steps) (hcall : Calls start steps s call) (hsnapshot : snapshot.page.Keyed)
    (hloaded : (Command.load (.snapshot snapshot)).run s = .ok reply t)
    (hlater : ∀ command ∈ later, command.Edits) (hnext : next.Edits) :
    let u := (runCommands t later).2
    next.Declines u ∨ next.WantsText u ∨ ∃ reply v, next.run u = .ok reply v ∧ v.draft.page.IsTree ∧
      (catalog.orBuiltIn.DefaultsKnown → v.draft.page.problems catalog.orBuiltIn false = []) ∧
      ∀ id, next = .remove id → ∃ ids, reply = .removed ids ∧
        (∀ x, x ∈ ids ↔ u.draft.page.Reaches id x) ∧
        ∀ x, v.draft.page.contains x = true ↔ u.draft.page.contains x = true ∧ x ∉ ids := by
  intro u
  have hinvariant := invariant_intact catalog
  have hs : Intact catalog s := hinvariant.calls hcall hload (intact_start hkeyed hinitial hstart)
  have ht : Intact catalog t := by
    have hafter : Intact catalog (stateOf ((Command.load (.snapshot snapshot)).run s)) :=
      hinvariant.command hsnapshot hs
    rwa [hloaded] at hafter
  have hu : Intact catalog u := hinvariant.commands (fun c hc => (hlater c hc).loadsKeyed) ht
  rcases hnext.cases hu.toSound with ⟨reply, v, hok⟩ | hno | hno
  · have hv : Intact catalog v := by
      have hafter := hinvariant.command hnext.loadsKeyed hu
      rwa [hok] at hafter
    refine Or.inr (Or.inr ⟨reply, v, hok, hv.isTree, hv.problems, ?_⟩)
    rintro id rfl
    exact removed_of_ok hu.toSound hok
  · exact Or.inl hno
  · exact Or.inr (Or.inl hno)

/-- The page of two is loaded, and what is removed is the second element, which has been duplicated
before. -/
theorem edits_after_load_pair :
    let loading : Command := .load (.snapshot ⟨Page.pair, [], .standard⟩)
    ∃ start reply t v, Session.start .builtIn .empty none {} = .ok start ∧
      loading.run start = .ok reply t ∧
      (Command.remove "el_2").run (runCommands t [.duplicate "el_2"]).2 =
        .ok (.removed ["el_2"]) v ∧
      v.draft.page.problems .builtIn false = [] ∧ v.draft.page.contains "el_3" = true := by
  intro loading
  have hrun : ((Session.start .builtIn .empty none {}).toOption.any fun start =>
      succeeds (loading.run start) fun _ t =>
        let u := (runCommands t [.duplicate "el_2"]).2
        succeeds ((Command.remove "el_2").run u) fun reply _ =>
          reply = .removed ["el_2"] && u.draft.page.contains "el_3") = true := by
    decide +kernel
  obtain ⟨start, hstart, hrun⟩ := exists_of_any hrun
  obtain ⟨reply, t, hloaded, hrun⟩ := exists_of_succeeds hrun
  obtain ⟨removed, v, hremove, hrun⟩ := exists_of_succeeds hrun
  simp only [Bool.and_eq_true, decide_eq_true_eq] at hrun
  obtain ⟨rfl, hcopy⟩ := hrun
  have hcall : Calls start [.command .entries false] start (.command .entries false) :=
    .first _ _ []
  have hload : LoadKeyed [.command .entries false] := by
    simp [LoadKeyed, Step.LoadsKeyed, Command.LoadsKeyed]
  have hlater : ∀ command ∈ [Command.duplicate "el_2"], command.Edits := by
    simp [Command.Edits]
  have hnext : (Command.remove "el_2").Edits := trivial
  rcases edits_after_load (Page.keyed_of_entries (by decide)) (by decide +kernel) hstart hload
      hcall Page.pair_wellFormed.keyed hloaded hlater hnext with
    (⟨reason, hno⟩ | ⟨hundo, -⟩) | ⟨edit, -, ⟨fault, -, hno⟩ | ⟨ids, -, hno⟩⟩ |
      ⟨reply, v', hok, -, hproblems, hremoved⟩
  · cases hno.symm.trans hremove
  · cases hundo
  · cases hno.symm.trans hremove
  · cases hno.symm.trans hremove
  · cases hok.symm.trans hremove
    obtain ⟨ids, heq, -, hcontains⟩ := hremoved "el_2" rfl
    cases heq
    exact ⟨start, _, t, v, hstart, hloaded, hremove, hproblems Catalog.builtIn_defaultsKnown,
      (hcontains "el_3").2 ⟨hcopy, by decide⟩⟩

/-- A text stored under a key that is not its id. -/
def misfiled : Snapshot where
  page := {
    elements := .ofList [
      ("a", ⟨"a", "container", .empty, .empty, ["b"], none⟩),
      ("b", ⟨"b", "container", .empty, .empty, ["c"], some "a"⟩),
      ("c", ⟨"b", "text", .empty, .empty, [], some "b"⟩)]
    root := some "a" }

/-- It is loaded, and the removal of the element above the text leaves the text behind. -/
theorem edits_after_load_misfiled :
    ∃ start reply t v, Session.start .builtIn .empty none {} = .ok start ∧
      (Command.load (.snapshot misfiled)).run start = .ok reply t ∧
      t.draft.page.Reaches "b" "c" ∧
      (Command.remove "b").run t = .ok (.removed ["b"]) v ∧
      v.draft.page.problems .builtIn false = [.unreachable "c"] := by
  have hrun : ((Session.start .builtIn .empty none {}).toOption.any fun start =>
      succeeds ((Command.load (.snapshot misfiled)).run start) fun _ t =>
        t.draft.page = misfiled.page &&
        succeeds ((Command.remove "b").run t) fun reply v =>
          reply = .removed ["b"] &&
            v.draft.page.problems .builtIn false = [.unreachable "c"]) = true := by
    decide +kernel
  obtain ⟨start, hstart, hrun⟩ := exists_of_any hrun
  obtain ⟨reply, t, hloaded, hrun⟩ := exists_of_succeeds hrun
  rw [Bool.and_eq_true, decide_eq_true_eq] at hrun
  obtain ⟨hpage, hrun⟩ := hrun
  obtain ⟨removed, v, hremove, hrun⟩ := exists_of_succeeds hrun
  simp only [Bool.and_eq_true, decide_eq_true_eq] at hrun
  obtain ⟨rfl, hproblems⟩ := hrun
  have hlists : t.draft.page.Lists "b" "c" := by
    rw [hpage]
    exact ⟨_, rfl, List.mem_singleton.2 rfl⟩
  exact ⟨start, reply, t, v, hstart, hloaded, .single hlists, hremove, hproblems⟩

end PageBuilder.Session
