import PageBuilder.Proofs.Draft.Invariant
import PageBuilder.Proofs.Session.Moves

/-!
# What a session keeps

A session edits one page and remembers others: the entries of its timeline, and what is on the
clipboard.  `Sound` says that all of them are good for what they are kept for, so that an entry can
be restored and the clipboard attached at any time.  `Coupled` adds the point of the
timeline: its present entry is the page being edited, unless a batch is open in which
something has changed.

The clause about batches is what makes the induction go through.  Inside a batch the
page runs ahead of the timeline, and at its end either the page is committed or the page
from before is restored; but a batch in which nothing changed commits nothing, so as long as
nothing has changed the page has to be the present entry still.
-/

namespace PageBuilder

namespace Session

open Page

variable {α : Type} {s : Session}

/-- A page that can be made the page being edited. -/
structure Restorable (page : Page) : Prop where
  keyed : page.Keyed
  linked : page.Linked
  reads : ∀ {id}, page.contains id = true → ({} : IdSource).Reads id

/-- Everything a session keeps can be used. -/
structure Sound (s : Session) : Prop where
  draft : s.draft.Consistent
  stem : s.draft.ids.stem = ({} : IdSource).stem
  clipboard : ∀ {nodes}, s.clipboard = some nodes → Detached nodes
  entries : ∀ {entry}, entry ∈ s.timeline.entries → Restorable entry.page

/-- Moreover the present entry of the timeline is the page being edited, unless something has
changed in an open batch. -/
structure Coupled (s : Session) : Prop extends Sound s where
  present : (s.inBatch = true → s.changedInBatch = false) →
    s.draft.page = s.timeline.present.page

theorem Sound.restorable (h : s.Sound) : Restorable s.draft.page where
  keyed := h.draft.keyed
  linked := h.draft.linked
  reads hc := (IdSource.reads_congr h.stem _).1 (h.draft.reads hc)

theorem Coupled.present_of_closed (h : s.Coupled) (hb : s.inBatch = false) :
    s.draft.page = s.timeline.present.page := by
  apply h.present
  intro hin
  exact absurd (hin.symm.trans hb) (by simp)

/-! ## Committing -/

theorem Sound.commit (h : s.Sound) : s.commit.Coupled where
  draft := h.draft
  stem := h.stem
  clipboard := h.clipboard
  entries := by
    intro entry hm
    rcases Timeline.mem_entries_commit hm with rfl | hm
    · exact h.restorable
    · exact h.entries hm
  present _ := rfl

theorem Sound.changed (h : s.Sound) : s.changed.Coupled := by
  unfold Session.changed
  cases hb : s.inBatch with
  | false => exact h.commit
  | true =>
    refine ⟨⟨h.draft, h.stem, h.clipboard, h.entries⟩, ?_⟩
    intro hno
    exact absurd (hno hb) (by simp)

/-! ## How a call can go -/

/-- What a call that fails ends in: the session as it was, but for ids that a copy has used up. -/
def FailedFrom (s t : Session) : Prop :=
  ∃ draft : Draft, t = s.withDraft draft ∧ Draft.Step s.draft draft ∧ draft.page = s.draft.page

/-- A call that fails leaves the session as it was, but for ids; one that succeeds ends in a session
that is good for something. -/
def Ends (good : Session → Prop) (action : Action α) (s : Session) : Prop :=
  (∃ failure t, action s = .error failure t ∧ FailedFrom s t) ∨ ∃ a t, action s = .ok a t ∧ good t

/-- What a change ends in: a session that was sound, with the same timeline, when it was
committed. -/
def ChangedFrom (s t : Session) : Prop :=
  ∃ u : Session, t = u.changed ∧ u.Sound ∧ u.openBatches = s.openBatches ∧
    u.timeline = s.timeline

/-- What all other calls end in, undo and redo excepted. -/
def KeptFrom (s t : Session) : Prop :=
  t.Coupled ∧ t.openBatches = s.openBatches ∧ t.timeline = s.timeline

/-- What undo and redo end in: the same entries, and perhaps another one of them present. -/
def TravelledFrom (s t : Session) : Prop :=
  s.inBatch = false ∧ t.Coupled ∧ t.openBatches = s.openBatches ∧
    t.timeline.entries = s.timeline.entries ∧ t.timeline.limit = s.timeline.limit

/-! ## Edits -/

/-- What a command attaches makes a tree. -/
theorem Sound.attachesTree (h : s.Sound) {command : Command} {edit : Draft.Edit}
    (hedit : command.edit? s = some edit) : edit.AttachesTree := by
  cases edit with
  | attach parent nodes index =>
    rcases attached_of_edit? hedit with hc | ⟨id, hcopy⟩
    · exact h.clipboard hc
    · exact Draft.copy_detached h.draft.linked h.draft.keyed hcopy
  | _ => exact trivial

theorem Sound.failedFrom (h : s.Sound) : FailedFrom s s :=
  ⟨s.draft, rfl, ⟨rfl, h.draft.keyed, h.draft.linked, rfl, Int.le_refl _, Or.inl, fun _ ha => ha⟩,
    rfl⟩

theorem Coupled.failed (h : s.Coupled) {t : Session} (ht : FailedFrom s t) : t.Coupled := by
  obtain ⟨draft, rfl, hstep, hpage⟩ := ht
  exact ⟨⟨hstep.consistent h.draft, hstep.stem.trans h.stem, h.clipboard, h.entries⟩,
    fun hno => hpage.trans (h.present hno)⟩

theorem Sound.edited (h : s.Sound) {after : Draft} (hstep : Draft.Step s.draft after)
    (selection : List String) : ((s.withDraft after).selecting selection).Sound where
  draft := hstep.consistent h.draft
  stem := hstep.stem.trans h.stem
  clipboard := h.clipboard
  entries := h.entries

/-- A duplicate is put right after the element it is a copy of. -/
theorem planDuplicate_cases {draft : Draft} (hl : draft.page.Linked) (hk : draft.page.Keyed)
    (id : String) : Rejected (planDuplicate draft id) ∨
      ∃ parent host nodes place, draft.page.get? parent = some host ∧
        host.children.idxOf? id = some place ∧ draft.copy id = .ok nodes ∧
          planDuplicate draft id = .ok ⟨parent, nodes, place + 1⟩ := by
  unfold planDuplicate parentOf
  rcases Draft.require_cases draft.page id with ⟨reason, hrequire, hreason⟩ | ⟨e, he, hrequire⟩
  · simp only [hrequire]
    exact Or.inl (rejected_error hreason)
  cases hp : e.parent with
  | none =>
    simp only [hrequire, hp]
    exact Or.inl (rejected_error (Rejection.ofEdit_of_wider rfl))
  | some parent =>
    obtain ⟨host, hhost, hm⟩ := hl.listed he hp
    obtain ⟨nodes, hcopy, -⟩ := Draft.copy_eq hl hk he
    obtain ⟨place, hplace⟩ : ∃ place, host.children.idxOf? id = some place := by
      cases hi : host.children.idxOf? id with
      | some place => exact ⟨place, rfl⟩
      | none => exact absurd hm (List.idxOf?_eq_none_iff.1 hi)
    refine Or.inr ⟨parent, host, nodes, place, hhost, hplace, hcopy, ?_⟩
    simp [hrequire, hp, fetch, hhost, hcopy, hplace, hk hhost]

theorem Sound.copied (h : s.Sound) {id : String} {nodes : List Element}
    (hcopy : s.draft.copy id = .ok nodes) : Sound { s with clipboard := some nodes } := by
  refine ⟨h.draft, h.stem, ?_, h.entries⟩
  rintro copied ⟨⟩
  exact Draft.copy_detached h.draft.linked h.draft.keyed hcopy

/-! ## Restoring -/

theorem Sound.restored (h : s.Sound) {snapshot : Snapshot} {draft : Draft}
    (hk : snapshot.page.Keyed) (hl : snapshot.page.Linked)
    (hdraft : Draft.ofPage s.draft.catalog s.draft.ids snapshot.page = .ok draft) :
    (s.restored snapshot draft).Sound := by
  obtain ⟨-, -, hstem, hconsistent⟩ :=
    Draft.ofPage_consistent h.draft.ahead.next_nonneg hk hl hdraft
  exact ⟨hconsistent, hstem.trans h.stem, h.clipboard, h.entries⟩

/-- A page that can be restored is restored, whatever happened to the session before. -/
theorem Sound.restore_eq (h : s.Sound) {snapshot : Snapshot} (hr : Restorable snapshot.page) :
    ∃ t : Session, restore snapshot s = .ok () t ∧ t.Sound ∧ t.draft.page = snapshot.page ∧
      t.openBatches = s.openBatches ∧ t.changedInBatch = s.changedInBatch ∧
      t.timeline = s.timeline := by
  obtain ⟨after, hpage⟩ := @IdSource.exists_ofPage s.draft.ids snapshot.page s.draft.catalog
    fun id hm => (IdSource.reads_congr h.stem id).2
      (hr.reads ((snapshot.page.elements.contains_iff id).2 hm))
  refine ⟨s.restored snapshot ⟨s.draft.catalog.orBuiltIn, after, snapshot.page⟩, ?_,
    h.restored hr.keyed hr.linked hpage, rfl, rfl, rfl, rfl⟩
  unfold restore
  rw [hpage]
  rfl

theorem checkLoad_eq_ok_iff {catalog : Catalog} {snapshot : Snapshot} :
    checkLoad catalog snapshot = .ok () ↔
      (∃ draft, Draft.ofPage catalog {} snapshot.page = .ok draft) ∧
        snapshot.page.problems catalog.orBuiltIn false = [] ∧
          propFaults snapshot.page.elements.values = [] := by
  unfold checkLoad
  cases hd : Draft.ofPage catalog {} snapshot.page with
  | error failure => simp
  | ok draft =>
    obtain ⟨hcatalog, hpage⟩ := IdSource.ofPage_eq hd
    simp only [Results.ok_bind, hcatalog, hpage]
    split
    · -- A prop whose fault cannot be put in words is a fault.
      rename_i hwanting
      have hprops : propFaults snapshot.page.elements.values ≠ [] := by
        rintro hnil
        rw [hnil] at hwanting
        cases hwanting
      simp [hprops]
    · split
      · rename_i hproblems hprops
        simp [hproblems, hprops]
      · rename_i hsome
        simp only [Results.throw_eq, reduceCtorEq, false_iff, not_and]
        exact fun _ => hsome

theorem restorable_of_checkLoad {catalog : Catalog} {snapshot : Snapshot}
    (hk : snapshot.page.Keyed) (h : checkLoad catalog snapshot = .ok ()) :
    Restorable snapshot.page := by
  obtain ⟨⟨draft, hd⟩, hproblems, -⟩ := checkLoad_eq_ok_iff.1 h
  have htree := (problems_eq_nil_iff.1 hproblems).1
  obtain ⟨source, hsource, -⟩ := IdSource.exists_of_ofPage hd
  refine ⟨hk, htree.linked, fun hc => ?_⟩
  obtain ⟨-, -, hall⟩ := IdSource.advancePast_ok hsource
  exact (hall _ ((snapshot.page.elements.contains_iff _).1 hc)).1

/-! ## Undo and redo -/

/-- Every entry of the timeline can be gone to. -/
theorem Sound.travel_eq (h : s.Sound) {timeline : Timeline Snapshot}
    (hentries : timeline.entries = s.timeline.entries) : ∃ t : Session,
      restore timeline.present { s with timeline := timeline } = .ok () t ∧
        travel timeline s = .ok timeline.present t ∧ t.Sound ∧
        t.draft.page = timeline.present.page ∧ t.openBatches = s.openBatches ∧
        t.timeline = timeline := by
  -- Travelling adds no entry, so all of them can be restored still.
  have hs : Sound { s with timeline := timeline } :=
    ⟨h.draft, h.stem, h.clipboard, fun hm => h.entries (hentries ▸ hm)⟩
  have hpresent : Restorable timeline.present.page :=
    h.entries (hentries ▸ timeline.present_mem_entries)
  obtain ⟨t, hrestore, ht, hpage, hopen, -, htimeline⟩ := hs.restore_eq hpresent
  refine ⟨t, hrestore, ?_, ht, hpage, hopen, htimeline⟩
  unfold travel
  exact (Results.bind_of_ok rfl _).trans (Results.bind_of_ok hrestore _)

theorem Coupled.travelled (h : s.Coupled) (hb : s.inBatch = false)
    {timeline : Timeline Snapshot} (hentries : timeline.entries = s.timeline.entries)
    (hlimit : timeline.limit = s.timeline.limit) :
    ∃ t, travel timeline s = .ok timeline.present t ∧ TravelledFrom s t := by
  obtain ⟨t, -, htravel, ht, hpage, hopen, htimeline⟩ := h.toSound.travel_eq hentries
  refine ⟨t, htravel, hb, ⟨ht, ?_⟩, hopen, ?_, ?_⟩
  · intro _
    rw [hpage, htimeline]
  · rw [htimeline, hentries]
  · rw [htimeline, hlimit]

/-! ## Calls that change something else -/

/-- Selection, viewport and the code generated last have no part in the coupling, and what is put
on the clipboard can be attached. -/
theorem Coupled.kept (h : s.Coupled) {t : Session} (ht : Aside s t) : KeptFrom s t := by
  refine ⟨⟨⟨ht.draft ▸ h.draft, ht.draft ▸ h.stem, fun hc => ?_,
    fun hm => h.entries (ht.timeline ▸ hm)⟩, fun hb => ?_⟩, ht.openBatches, ht.timeline⟩
  · rcases ht.clipboard hc with hc | ⟨id, hcopy⟩
    · exact h.clipboard hc
    · exact Draft.copy_detached h.draft.linked h.draft.keyed hcopy
  · rw [ht.draft, ht.timeline]
    apply h.present
    intro hin
    rw [← ht.changedInBatch]
    exact hb ((inBatch_congr ht.openBatches).trans hin)

end Session

end PageBuilder
