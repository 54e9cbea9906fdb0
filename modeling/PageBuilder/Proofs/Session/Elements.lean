import PageBuilder.Proofs.Draft.Elements
import PageBuilder.Proofs.Session.Vocabulary

/-!
# What holds of every element of a session

A session keeps elements in three places: in the page being edited, in the entries of its timeline
and on its clipboard.  A property of elements that edits keep, and that the check of a load asks
for, holds in all three at every point of a run if it holds of the page that the session starts
with (`reached_holding`).
-/

namespace PageBuilder.Session

open Results

variable {catalog : Catalog} {good : Element → Prop} {start s t : Session}

/-- Every element that a session keeps has a property; edits are made with a given catalog. -/
structure Holding (catalog : Catalog) (good : Element → Prop) (s : Session) : Prop where
  catalog_eq : s.draft.catalog = catalog.orBuiltIn
  page : s.draft.page.Every good
  entries : ∀ entry ∈ s.timeline.entries, entry.page.Every good
  copied : ∀ nodes, s.clipboard = some nodes → ∀ node ∈ nodes, good node

/-- A commit adds what is shown. -/
theorem Holding.commit (h : Holding catalog good s) : Holding catalog good s.commit where
  catalog_eq := h.catalog_eq
  page := h.page
  entries := by
    intro entry hm
    rcases Timeline.mem_entries_commit hm with rfl | hm
    · exact h.page
    · exact h.entries entry hm
  copied := h.copied

theorem Holding.changed (h : Holding catalog good s) : Holding catalog good s.changed := by
  unfold Session.changed
  split
  · exact ⟨h.catalog_eq, h.page, h.entries, h.copied⟩
  · exact h.commit

/-- A snapshot whose elements are good brings in no other ones. -/
theorem Holding.restored (h : Holding catalog good s) {snapshot : Snapshot} {draft : Draft}
    (hs : snapshot.page.Every good)
    (hdraft : Draft.ofPage s.draft.catalog s.draft.ids snapshot.page = .ok draft) :
    Holding catalog good (s.restored snapshot draft) where
  catalog_eq := by
    rw [← Catalog.orBuiltIn_orBuiltIn, ← h.catalog_eq]
    exact (IdSource.ofPage_eq hdraft).1
  page := by
    show draft.page.Every good
    rw [(IdSource.ofPage_eq hdraft).2]
    exact hs
  entries := h.entries
  copied := h.copied

theorem Holding.restore (h : Holding catalog good s) {snapshot : Snapshot}
    (hs : snapshot.page.Every good) :
    Holding catalog good (stateOf (Session.restore snapshot s)) := by
  rcases restore_cases snapshot s with ⟨failure, hr⟩ | ⟨draft, hdraft, hr⟩
  · rw [hr]
    exact h
  · rw [hr]
    exact h.restored hs hdraft

/-- An edit keeps what is said of elements, if it can be kept. -/
theorem Holding.edited (hkept : Element.Kept catalog.orBuiltIn good) (h : Holding catalog good s)
    {command : Command} {edit : Draft.Edit} (hedit : command.edit? s = some edit) :
    Holding catalog good (s.withDraft (stateOf (edit.run s.draft))) where
  catalog_eq := (edit.catalog_run s.draft).trans h.catalog_eq
  page := by
    have hdraft : Element.Kept s.draft.catalog good := by
      rw [h.catalog_eq]
      exact hkept
    apply Draft.Edit.run_every hdraft h.page
    rintro parent nodes index rfl
    rcases attached_of_edit? hedit with hc | ⟨id, hcopy⟩
    · exact h.copied nodes hc
    · exact Draft.copy_every hdraft h.page hcopy
  entries := h.entries
  copied := h.copied

/-- So does every kind of move; what is loaded has passed a check. -/
theorem Move.holding (hkept : Element.Kept catalog.orBuiltIn good)
    (hload : ∀ {snapshot}, checkLoad catalog.orBuiltIn snapshot = .ok () →
      snapshot.page.Every good)
    {command : Command} (hmove : Move s command t) (h : Holding catalog good s) :
    Holding catalog good t := by
  cases hmove with
  | edited hedit hrun selection =>
    have hedited := h.edited hkept hedit
    rw [hrun] at hedited
    exact Holding.changed ⟨hedited.catalog_eq, hedited.page, hedited.entries, hedited.copied⟩
  | halted hedit hrun =>
    have hedited := h.edited hkept hedit
    rw [hrun] at hedited
    exact hedited
  | loaded _ hcheck hdraft =>
    rw [h.catalog_eq] at hcheck
    exact (h.restored (hload hcheck) hdraft).changed
  | @travelled _ timeline _ hentries _ =>
    apply Holding.restore
    · exact ⟨h.catalog_eq, h.page, hentries ▸ h.entries, h.copied⟩
    · exact h.entries _ (hentries ▸ timeline.present_mem_entries)
  | @copied _ nodes hcopy =>
    refine ⟨h.catalog_eq, h.page, h.entries, ?_⟩
    rintro copied ⟨⟩
    apply Draft.copy_every _ h.page hcopy
    rw [h.catalog_eq]
    exact hkept
  | kept => exact h
  | selected | set | generated => exact ⟨h.catalog_eq, h.page, h.entries, h.copied⟩

/-- It lasts, whatever the events are. -/
theorem lasting_holding (hkept : Element.Kept catalog.orBuiltIn good)
    (hload : ∀ {snapshot}, checkLoad catalog.orBuiltIn snapshot = .ok () →
      snapshot.page.Every good) : Lasting (fun _ => True) (Holding catalog good) where
  move _ hs hmove := hmove.holding hkept hload hs
  enter hs := by
    unfold Session.enter
    split <;> exact ⟨hs.catalog_eq, hs.page, hs.entries, hs.copied⟩
  closed _ hs := ⟨hs.catalog_eq, hs.page, hs.entries, hs.copied⟩
  commit := Holding.commit
  restore hs hu := hu.restore hs.page

theorem holding_start {initial : Snapshot} {limit : Option Int} {preferences : Preferences}
    (h : Session.start catalog initial limit preferences = .ok start)
    (hinitial : initial.page.Every good) : Holding catalog good start := by
  have hcatalog := catalog_start h
  obtain ⟨draft, hdraft, rfl⟩ := exists_of_start h
  refine ⟨hcatalog, ?_, fun entry hm => ?_, nofun⟩
  · show draft.page.Every good
    rw [(IdSource.ofPage_eq hdraft).2]
    exact hinitial
  · cases List.mem_singleton.1 hm
    exact hinitial

/-- At every point of a run, what held of all elements at the start holds of all elements. -/
theorem reached_holding (hkept : Element.Kept catalog.orBuiltIn good)
    (hload : ∀ {snapshot}, checkLoad catalog.orBuiltIn snapshot = .ok () →
      snapshot.page.Every good)
    {initial : Snapshot} {limit : Option Int} {preferences : Preferences} {steps : List Step}
    {past later : List Event}
    (hstart : Session.start catalog initial limit preferences = .ok start)
    (hinitial : initial.page.Every good) (hevents : events start steps = past ++ later) :
    Holding catalog good (reached start past) :=
  ((history_of_events hevents).lasting (lasting_holding hkept hload)
    (holding_start hstart hinitial) fun _ _ => trivial).1

end PageBuilder.Session
