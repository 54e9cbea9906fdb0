import PageBuilder.Proofs.Archive.Gate
import PageBuilder.Proofs.Draft.Atomic
import PageBuilder.Proofs.Draft.Contents
import PageBuilder.Proofs.Session.Events

/-!
# Every state of a session can be saved

`Durable` is what makes it so: the page being edited and all entries of the timeline are valid as
documents, and what is on the clipboard can be saved once it has new ids.  Each kind of move keeps
it, given that the new ids are not too long and that what is loaded is valid; so does the end of a
batch, which can only restore a snapshot that was valid when the batch was opened.

A snapshot comes to be valid in two ways, by being read and by being shown in a session, into which
again others may have been loaded.  `Sanctioned` follows this back, and the induction over it is
what closes the argument.
-/

namespace PageBuilder

/-! ## Documents in parts -/

namespace Archive

open Session

variable {catalog : Catalog} {page : Page} {viewport : Viewport}

/-- The settings a session starts with are valid. -/
theorem viewportValid_standard : ViewportValid .standard := by
  refine ⟨"desktop", 100, ?_, by simp, by simp, .refl _⟩
  simp [Failure.viewportNames]

/-- They stay so, whatever a command sets. -/
theorem ViewportValid.set (h : ViewportValid viewport) {key : String} {value : Value}
    (hset : Setting key value) : ViewportValid (viewport.insert key value) := by
  obtain ⟨name, zoom, hname, hleast, hgreatest, hsame⟩ := h
  cases hset with
  | @name other hother =>
    refine ⟨other, zoom, hother, hleast, hgreatest, fun key => ?_⟩
    rw [OrderedMap.get?_insert, hsame key, OrderedMap.get?_ofList, OrderedMap.get?_ofList]
    by_cases hkey : key = "name" <;> simp [lookup_cons_pair, hkey]
  | @zoom other hl hg =>
    refine ⟨name, other, hname, hl, hg, fun key => ?_⟩
    rw [OrderedMap.get?_insert, hsame key, OrderedMap.get?_ofList, OrderedMap.get?_ofList]
    by_cases hkey : key = "zoom" <;> simp [lookup_cons_pair, hkey]

/-- A page and a viewport that are valid make a document, whatever is selected. -/
theorem PageValid.document (h : PageValid catalog page) (hv : ViewportValid viewport)
    (selection : List String) : DocumentValid catalog (.ofPage page selection viewport) where
  keyed := h.keyed
  saveable _ hp := h.saveable ((OrderedMap.mem_entries_iff _ _ _).1 hp)
  consistent := h.consistent
  selected _ hid := (List.mem_filter.1 hid).2
  viewport := by
    rw [Snapshot.ofPage, Viewport.orStandard_eq hv.isEmpty_eq]
    exact hv

theorem documentValid_empty (catalog : Catalog) : DocumentValid catalog .empty where
  keyed he := by cases he
  saveable := by simp [Snapshot.empty, OrderedMap.empty]
  consistent := rfl
  selected := by simp [Snapshot.empty]
  viewport := viewportValid_standard

/-- The catalog that stands in for an empty one is the one that a document is checked against. -/
theorem documentValid_of_orBuiltIn {s : Snapshot} (h : DocumentValid catalog.orBuiltIn s) :
    DocumentValid catalog s := by
  refine ⟨h.keyed, h.saveable, ?_, h.selected, h.viewport⟩
  rw [← Catalog.orBuiltIn_orBuiltIn]
  exact h.consistent

end Archive

namespace Session

open Archive Results

variable {catalog : Catalog} {start s t : Session} {past : List Event}

/-- What is valid can be gone back to. -/
theorem restorable_of_valid {snapshot : Snapshot} (h : DocumentValid catalog snapshot) :
    Restorable snapshot.page :=
  ⟨h.keyed, h.page.linked, fun hc => IdSource.reads_of_isValidId _ (h.page.isValidId hc)⟩

/-! ## Sessions that can be saved -/

/-- Everything a session keeps can be saved, now or when it is put back into the page. -/
structure Durable (catalog : Catalog) (s : Session) : Prop extends Sound s where
  catalog_eq : s.draft.catalog = catalog.orBuiltIn
  page : PageValid catalog s.draft.page
  viewport : ViewportValid s.viewport
  documents : ∀ entry ∈ s.timeline.entries, DocumentValid catalog entry
  copied : ∀ nodes, s.clipboard = some nodes → ∀ node ∈ nodes, node.Storable

/-- What is shown is made of parts that are valid. -/
theorem Durable.shown (h : Durable catalog s) : DocumentValid catalog s.snapshot :=
  h.page.document h.viewport s.selection

/-- What a session keeps beside its page, entries and clipboard does not count. -/
theorem Durable.congr (h : Durable catalog s) (hdraft : t.draft = s.draft)
    (htimeline : t.timeline.entries = s.timeline.entries) (hclipboard : t.clipboard = s.clipboard)
    (hviewport : t.viewport = s.viewport) : Durable catalog t where
  draft := hdraft ▸ h.draft
  stem := hdraft ▸ h.stem
  clipboard hc := h.clipboard (hclipboard ▸ hc)
  entries hm := h.entries (htimeline ▸ hm)
  catalog_eq := hdraft ▸ h.catalog_eq
  page := hdraft ▸ h.page
  viewport := hviewport ▸ h.viewport
  documents _ hm := h.documents _ (htimeline ▸ hm)
  copied _ hc := h.copied _ (hclipboard ▸ hc)

theorem Durable.enter (h : Durable catalog s) : Durable catalog s.enter := by
  unfold Session.enter
  split <;> exact h.congr rfl rfl rfl rfl

/-- A commit adds what is shown, which is valid, and drops entries. -/
theorem Durable.commit (h : Durable catalog s) : Durable catalog s.commit where
  toSound := h.toSound.commit.toSound
  catalog_eq := h.catalog_eq
  page := h.page
  viewport := h.viewport
  documents := by
    intro entry hm
    rcases Timeline.mem_entries_commit hm with rfl | hm
    · exact h.shown
    · exact h.documents entry hm
  copied := h.copied

/-- Recording a change commits, or makes a note of it. -/
theorem Durable.changed (h : Durable catalog s) : Durable catalog s.changed := by
  unfold Session.changed
  split
  · exact h.congr rfl rfl rfl rfl
  · exact h.commit

/-- Going back to a valid snapshot takes its page and viewport over. -/
theorem Durable.restored (h : Durable catalog s) {snapshot : Snapshot}
    (hs : DocumentValid catalog snapshot) {draft : Draft}
    (hdraft : Draft.ofPage s.draft.catalog s.draft.ids snapshot.page = .ok draft) :
    Durable catalog (s.restored snapshot draft) := by
  obtain ⟨hcatalog, hpage⟩ := IdSource.ofPage_eq hdraft
  constructor
  case toSound => exact h.toSound.restored hs.keyed hs.page.linked hdraft
  case catalog_eq =>
    rw [h.catalog_eq, Catalog.orBuiltIn_orBuiltIn] at hcatalog
    exact hcatalog
  case page =>
    show PageValid catalog draft.page
    rw [hpage]
    exact hs.page
  case viewport =>
    show ViewportValid snapshot.viewport.orStandard
    rw [Viewport.orStandard_eq (ViewportValid.isEmpty_eq hs.viewport)]
    exact hs.viewport
  case documents => exact h.documents
  case copied => exact h.copied

theorem Durable.restore (h : Durable catalog s) {snapshot : Snapshot}
    (hs : DocumentValid catalog snapshot) :
    Durable catalog (stateOf (Session.restore snapshot s)) := by
  rcases restore_cases snapshot s with ⟨failure, hr⟩ | ⟨draft, hdraft, hr⟩
  · rw [hr]
    exact h
  · rw [hr]
    exact h.restored hs hdraft

/-! ## Commands -/

/-- An edit that fails leaves the page as it is. -/
theorem Durable.failed (h : Durable catalog s) {edit : Draft.Edit} {failure : Failure}
    {after : Draft} (hrun : edit.run s.draft = .error failure after) :
    Durable catalog (s.withDraft after) where
  toSound := h.toSound.edited (Draft.failed_step h.draft hrun).1 s.selection
  catalog_eq := (Draft.failed_step h.draft hrun).1.catalog.trans h.catalog_eq
  page := by
    show PageValid catalog after.page
    rw [(Draft.failed_step h.draft hrun).2]
    exact h.page
  viewport := h.viewport
  documents := h.documents
  copied := h.copied

/-- The catalog is that of the start. -/
theorem Durable.fit (h : Durable catalog s) (hfit : catalog.Fit) : s.draft.catalog.Fit := by
  rw [h.catalog_eq]
  exact hfit.orBuiltIn

/-- What an edit attaches was on the clipboard or on the page, and can be stored. -/
theorem Durable.attaches (h : Durable catalog s) (hfit : catalog.Fit) {command : Command}
    {edit : Draft.Edit} (hedit : command.edit? s = some edit) : edit.AttachesStorable := by
  cases edit with
  | attach parent nodes index =>
    rcases attached_of_edit? hedit with hc | ⟨id, hcopy⟩
    · exact h.copied nodes hc
    · exact Draft.copy_storable (h.fit hfit) h.page.storable hcopy
  | _ => exact trivial

/-- A text that is loaded passes the gate; a snapshot has to be valid already. -/
theorem valid_of_origin {origin : Origin} {snapshot : Snapshot}
    (hread : origin.read catalog.orBuiltIn = .ok snapshot)
    (hgiven : ∀ given ∈ (Event.call s (.load origin)).given, DocumentValid catalog given) :
    DocumentValid catalog snapshot := by
  cases origin with
  | snapshot given =>
    cases hread
    exact hgiven snapshot List.mem_cons_self
  | text saved => exact documentValid_of_orBuiltIn (valid_of_read hread).1
  | nothing => cases hread

/-- Each kind of move keeps it. -/
theorem Move.durable (hfit : catalog.Fit) {command : Command} (hmove : Move s command t)
    (h : Durable catalog s)
    (hgiven : ∀ given ∈ (Event.call s command).given, DocumentValid catalog given)
    (hids : ∀ id ∈ command.created s, id.length ≤ 64) : Durable catalog t := by
  cases hmove with
  | kept => exact h
  | @edited _ edit _ after hedit hrun selection =>
    have htree := h.toSound.attachesTree hedit
    have hstorable := h.attaches hfit hedit
    have hstep := Draft.run_step h.draft htree hrun
    rw [created_eq hedit hrun] at hids
    apply Durable.changed
    constructor
    case toSound => exact h.toSound.edited hstep selection
    case catalog_eq => exact hstep.catalog.trans h.catalog_eq
    case page =>
      exact Draft.Edit.run_pageValid hfit h.catalog_eq h.draft h.stem h.page htree hstorable hrun
        hids
    case viewport => exact h.viewport
    case documents => exact h.documents
    case copied => exact h.copied
  | @halted _ edit _ after hedit hrun =>
    exact h.failed hrun
  | loaded hread _ hdraft =>
    rw [h.catalog_eq] at hread
    exact (h.restored (valid_of_origin hread hgiven) hdraft).changed
  | @travelled _ timeline _ hentries _ =>
    apply Durable.restore
    · exact h.congr rfl hentries rfl rfl
    · exact h.documents _ (hentries ▸ timeline.present_mem_entries)
  | @copied _ nodes hcopy =>
    refine ⟨h.toSound.copied hcopy, h.catalog_eq, h.page, h.viewport, h.documents, ?_⟩
    rintro copied ⟨⟩
    exact Draft.copy_storable (h.fit hfit) h.page.storable hcopy
  | selected | generated => exact h.congr rfl rfl rfl rfl
  | set _ hset =>
    exact ⟨⟨h.draft, h.stem, h.clipboard, h.entries⟩, h.catalog_eq, h.page, h.viewport.set hset,
      h.documents, h.copied⟩

/-! ## Histories -/

/-- It lasts through events that load valid snapshots and hand out ids that are not too long. -/
theorem lasting_durable (hfit : catalog.Fit) :
    Lasting (fun event => (∀ given ∈ event.given, DocumentValid catalog given) ∧
      ∀ id ∈ event.created, id.length ≤ 64) (Durable catalog) where
  move hallowed hs hmove := hmove.durable hfit hs hallowed.1 hallowed.2
  enter := Durable.enter
  closed _ hs := hs.congr rfl rfl rfl rfl
  commit := Durable.commit
  restore hs hu := hu.restore hs.shown

theorem History.durable (hfit : catalog.Fit) (h : History start past s)
    (hstart : Durable catalog start)
    (hgiven : ∀ event ∈ past, ∀ given ∈ event.given, DocumentValid catalog given)
    (hids : ∀ event ∈ past, ∀ id ∈ event.created, id.length ≤ 64) : Durable catalog s :=
  (h.lasting (lasting_durable hfit) hstart fun event he => ⟨hgiven event he, hids event he⟩).1

/-- A session that starts with a valid snapshot begins with it. -/
theorem durable_start {initial : Snapshot} {limit : Option Int} {preferences : Preferences}
    (hinitial : DocumentValid catalog initial)
    (h : Session.start catalog initial limit preferences = .ok start) : Durable catalog start := by
  obtain ⟨draft, hdraft, rfl⟩ := exists_of_start h
  obtain ⟨hcatalog, hpage, hstem, hconsistent⟩ :=
    Draft.ofPage_consistent (by decide) hinitial.keyed hinitial.page.linked hdraft
  have hentry : ∀ entry ∈ (Timeline.start initial (limit.or preferences.timelineLimit)).entries,
      entry = initial := fun _ => List.mem_singleton.1
  constructor
  case toSound =>
    refine ⟨hconsistent, hstem, fun hc => ?_, fun hm => ?_⟩
    · cases hc
    · rw [hentry _ hm]
      exact restorable_of_valid hinitial
  case catalog_eq => exact hcatalog
  case page =>
    rw [hpage]
    exact hinitial.page
  case viewport => exact hinitial.viewport
  case documents =>
    intro entry hm
    rw [hentry entry hm]
    exact hinitial
  case copied =>
    intro nodes hc
    cases hc

/-! ## Snapshots that come from sessions -/

/-- A snapshot that a session may be started from. -/
def Initial (catalog : Catalog) (initial : Snapshot) : Prop :=
  initial = .empty ∨ ∃ text, Archive.read text catalog = .ok initial

/-- A snapshot that has been read, or that has been shown at some point of a run; the ids handed
out up to there are not too long, and the snapshots loaded up to there are of the same origin. -/
inductive Sanctioned (catalog : Catalog) : Snapshot → Prop
  | read {text : String} {snapshot : Snapshot} (h : Archive.read text catalog = .ok snapshot) :
      Sanctioned catalog snapshot
  | shown {initial : Snapshot} {limit : Option Int} {preferences : Preferences} {start : Session}
      {steps : List Step} {past later : List Event} (hinitial : Initial catalog initial)
      (hstart : Session.start catalog initial limit preferences = .ok start)
      (hevents : events start steps = past ++ later)
      (hgiven : ∀ event ∈ past, ∀ given ∈ event.given, Sanctioned catalog given)
      (hids : ∀ event ∈ past, ∀ id ∈ event.created, id.length ≤ 64) :
      Sanctioned catalog (reached start past).snapshot

/-- Every session starts with something valid. -/
theorem Initial.valid {initial : Snapshot} (h : Initial catalog initial) :
    DocumentValid catalog initial := by
  rcases h with rfl | ⟨text, hread⟩
  · exact documentValid_empty catalog
  · exact (valid_of_read hread).1

/-- So it holds at every point of a run. -/
theorem reached_durable (hfit : catalog.Fit) {initial : Snapshot} {limit : Option Int}
    {preferences : Preferences} {steps : List Step} {later : List Event}
    (hinitial : Initial catalog initial)
    (hstart : Session.start catalog initial limit preferences = .ok start)
    (hevents : events start steps = past ++ later)
    (hgiven : ∀ event ∈ past, ∀ given ∈ event.given, DocumentValid catalog given)
    (hids : ∀ event ∈ past, ∀ id ∈ event.created, id.length ≤ 64) :
    Durable catalog (reached start past) :=
  (history_of_events hevents).durable hfit (durable_start hinitial.valid hstart) hgiven hids

/-- By induction on how the snapshot came about, over the loads in all the sessions it has passed
through. -/
theorem Sanctioned.valid (hfit : catalog.Fit) {snapshot : Snapshot}
    (h : Sanctioned catalog snapshot) : DocumentValid catalog snapshot := by
  induction h with
  | read h => exact (valid_of_read h).1
  | shown hinitial hstart hevents _ hids ih =>
    exact (reached_durable hfit hinitial hstart hevents ih hids).shown

/-- At every point of a run, inside batches too, what is shown and every entry of the timeline makes
a document, as long as no id handed out so far, in this run or in one whose snapshot has been
loaded, is longer than an id may be.  It is saved, and read back from what was saved, unless a prop
is an integer of too many digits: nothing but that keeps it from being saved. -/
theorem reached_saved (catalog : Catalog) :
    Catalog.builtIn.Fit ∧
    ∀ {initial : Snapshot} {limit : Option Int} {preferences : Preferences}
      {start : Session} {steps : List Step} {past later : List Event} {snapshot : Snapshot},
      catalog.Fit → Initial catalog initial →
      Session.start catalog initial limit preferences = .ok start →
      events start steps = past ++ later →
      (∀ event ∈ past, ∀ given ∈ event.given, Sanctioned catalog given) →
      (∀ event ∈ past, ∀ id ∈ event.created, id.length ≤ 64) →
      (snapshot = (reached start past).snapshot ∨
        snapshot ∈ (reached start past).timeline.entries) →
      (Writable snapshot → ∃ text again, Archive.write snapshot = .ok text ∧
        Archive.read text catalog = .ok again ∧ again.SameContent snapshot) ∧
      (¬ Writable snapshot → Archive.write snapshot = .error (.noText .longInteger)) := by
  refine ⟨Catalog.builtIn_fit, ?_⟩
  intro initial limit preferences start steps past later snapshot hfit hinitial hstart hevents
    hgiven hids hsnapshot
  have hdurable := reached_durable hfit hinitial hstart hevents
    (fun event he given hm => (hgiven event he given hm).valid hfit) hids
  have hvalid : DocumentValid catalog snapshot := by
    rcases hsnapshot with rfl | hm
    · exact hdurable.shown
    · exact hdurable.documents snapshot hm
  exact ⟨read_write hvalid, fun hw => (write_eq_error hvalid hw).1⟩

/-- A batch, an insertion that is undone, and the loading of what another session starts with. -/
theorem reached_saved_loaded :
    let steps : List Step := [
      .batch [.command (.insert none "container" none .empty .empty) false,
        .command (.setZoom (.int 150)) false] none false,
      .command (.insert (some "el_1") "text" none .empty .empty) false,
      .command .undo false, .command (.load (.snapshot .empty)) false]
    ∃ start, Session.start .builtIn .empty none {} = .ok start ∧
      (events start steps).flatMap Event.created = ["el_1", "el_2"] ∧
      (reached start (events start steps)).timeline.length = 3 ∧
      ∀ snapshot ∈ (reached start (events start steps)).timeline.entries, ∃ text again,
        Archive.write snapshot = .ok text ∧ Archive.read text .builtIn = .ok again ∧
          again.SameContent snapshot := by
  intro steps
  have hrun : ((Session.start .builtIn .empty none {}).toOption.any fun start =>
      start.snapshot = .empty && (events start steps).flatMap Event.created = ["el_1", "el_2"] &&
        (reached start (events start steps)).timeline.length = 3 &&
        (events start steps).flatMap Event.given = [.empty] &&
        (reached start (events start steps)).timeline.entries.all (Writable ·)) = true := by
    decide +kernel
  obtain ⟨start, hstart, hrun⟩ := exists_of_any hrun
  simp only [Bool.and_eq_true, decide_eq_true_eq, List.all_eq_true] at hrun
  obtain ⟨⟨⟨⟨hempty, hcreated⟩, hlength⟩, hgiven⟩, hwritable⟩ := hrun
  refine ⟨start, hstart, hcreated, hlength, fun snapshot hm => ?_⟩
  refine ((reached_saved .builtIn).2 Catalog.builtIn_fit (Or.inl rfl) hstart
    (List.append_nil _).symm (fun event he given hload => ?_) (fun event he id hid => ?_)
    (Or.inr hm)).1 (hwritable snapshot hm)
  · have hload : given ∈ [Snapshot.empty] := by
      rw [← hgiven]
      exact List.mem_flatMap_of_mem he hload
    rw [List.mem_singleton.1 hload, ← hempty]
    exact @Sanctioned.shown _ _ _ _ _ [] [] [] (Or.inl rfl) hstart rfl (by simp) (by simp)
  · have hnew : id ∈ ["el_1", "el_2"] := by
      rw [← hcreated]
      exact List.mem_flatMap_of_mem he hid
    simp only [List.mem_cons, List.not_mem_nil, or_false] at hnew
    rcases hnew with rfl | rfl <;> decide

/-- An integer of too many digits is taken as a prop, and what is then shown is not saved. -/
theorem reached_saved_overlong :
    let steps : List Step := [
      .command (.insert none "text" none .empty .empty) false,
      .command (.updateProps "el_1" (.ofList [("title", .int Number.overlong)])) false]
    ∃ start, Session.start .builtIn .empty none {} = .ok start ∧
      (events start steps).flatMap Event.created = ["el_1"] ∧
      Archive.write (reached start (events start steps)).snapshot =
        .error (.noText .longInteger) := by
  intro steps
  have hrun : ((Session.start .builtIn .empty none {}).toOption.any fun start =>
      (events start steps).flatMap Event.created = ["el_1"] &&
        (events start steps).flatMap Event.given = [] &&
        ((reached start (events start steps)).snapshot.page.get? "el_1").any fun e =>
          e.props.get? "title" = some (.int Number.overlong)) = true := by
    decide +kernel
  obtain ⟨start, hstart, hrun⟩ := exists_of_any hrun
  simp only [Bool.and_eq_true, decide_eq_true_eq, Option.any_eq_true] at hrun
  obtain ⟨⟨hcreated, hgiven⟩, e, he, hp⟩ := hrun
  have hvalid : DocumentValid .builtIn (reached start (events start steps)).snapshot := by
    refine (reached_durable Catalog.builtIn_fit (Or.inl rfl) hstart (List.append_nil _).symm
      (fun event hm given hload => ?_) (fun event hm id hid => ?_)).shown
    · have hload := List.mem_flatMap_of_mem hm hload
      simp [hgiven] at hload
    · have hnew := List.mem_flatMap_of_mem hm hid
      rw [hcreated, List.mem_singleton] at hnew
      rw [hnew]
      decide
  have hunwritable : ¬ Writable (reached start (events start steps)).snapshot := by
    intro hw
    have hnone := hw _ ((OrderedMap.mem_entries_iff _ _ _).2 he) _
      ((OrderedMap.mem_entries_iff _ _ _).2 hp)
    rw [Value.textFault?_overlong] at hnone
    cases hnone
  exact ⟨start, hstart, hcreated, (write_eq_error hvalid hunwritable).1⟩

end Session

end PageBuilder
