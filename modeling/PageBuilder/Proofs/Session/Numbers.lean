import Mathlib.Order.Bounds.Basic
import PageBuilder.Proofs.Session.Ids
import PageBuilder.Proofs.Session.Saving
import PageBuilder.Proofs.Session.Vocabulary

/-!
# How far the numbers of new ids go

A new id is valid as long as its number has no more than sixty-one digits, so what is to be known is
how far the next number of a session can go.  Two things take it further: an edit, by as many as it
makes elements, and loading a snapshot, which takes it past all numbers of that.  Nothing else does.
Undo, redo and a batch that is given up make new drafts too, but of pages that have been in the
session before, and the next number is above all of theirs already: that is the invariant
`PastNumbers`.

There is an end to the numbers: one of too many digits is not written.  An edit that comes upon it
may have taken some numbers for nothing, but after that no edit makes any elements (`Spent`).

So the ids that are handed out after a snapshot has been loaded are known exactly, and a document
whose numbers are high leaves room for few of them.
-/

namespace PageBuilder

open Results

namespace IdSource

open Number

variable {source : IdSource}

/-! ## Numbers of valid ids -/

/-- The stem that sources begin with leaves room for sixty-one digits. -/
theorem length_idOf_le_iff (hstem : source.stem = ({} : IdSource).stem) {n : Nat} :
    (source.idOf n).length ≤ 64 ↔ n < 10 ^ 61 := by
  have hdigits : (naturalText n).length ≤ 61 ↔ n < 10 ^ 61 :=
    Nat.length_toDigits_le_iff (by decide) (by decide)
  rw [← hdigits, ← String.length_toList, toList_idOf hstem]
  simp only [List.length_cons]
  omega

theorem isValidId_idOf_iff (hstem : source.stem = ({} : IdSource).stem) {n : Nat} :
    Element.isValidId (source.idOf n) = true ↔ n < 10 ^ 61 := by
  rw [← length_idOf_le_iff hstem]
  refine ⟨fun h => ?_, isValidId_idOf hstem⟩
  rw [Element.isValidId, withoutFinalNewline_eq (newline_not_mem_idOf hstem n),
    toList_idOf hstem] at h
  simp only [Bool.and_eq_true, decide_eq_true_eq, List.length_cons] at h
  rw [← String.length_toList, toList_idOf hstem]
  simp only [List.length_cons]
  omega

end IdSource

/-! ## Numbers on a page -/

/-- All numbers that ids of a page have are below a bound. -/
def Page.NumbersBelow (page : Page) (bound : Int) : Prop :=
  ∀ id n, page.contains id = true → ({} : IdSource).number? id = .ok (some n) → n < bound

theorem Page.NumbersBelow.mono {page : Page} {bound limit : Int} (h : page.NumbersBelow bound)
    (hle : bound ≤ limit) : page.NumbersBelow limit :=
  fun id n hc hn => Int.lt_of_lt_of_le (h id n hc hn) hle

namespace Draft

variable {catalog : Catalog} {ids : IdSource} {page : Page} {draft before after : Draft}

/-- A source is moved past the numbers of a page and no further. -/
theorem isLeast_next (hstem : ids.stem = ({} : IdSource).stem)
    (h : Draft.ofPage catalog ids page = .ok draft) :
    IsLeast {n | ids.next ≤ n ∧ page.NumbersBelow n} draft.ids.next := by
  obtain ⟨source, hsource, rfl⟩ := IdSource.exists_of_ofPage h
  obtain ⟨-, hle, hall⟩ := IdSource.advancePast_ok hsource
  refine ⟨⟨hle, fun id n hc hn => ?_⟩, ?_⟩
  · apply (hall id ((page.elements.contains_iff id).1 hc)).2 n
    rwa [IdSource.number?_congr hstem]
  · rintro limit ⟨hn, hbelow⟩
    apply IdSource.next_advancePast_le hsource hn
    intro id hid n hnumber
    rw [IdSource.number?_congr hstem] at hnumber
    exact hbelow id n ((page.elements.contains_iff id).2 hid) hnumber

theorem next_eq_of_below (hstem : ids.stem = ({} : IdSource).stem)
    (h : Draft.ofPage catalog ids page = .ok draft) (hbelow : page.NumbersBelow ids.next) :
    draft.ids.next = ids.next := by
  have hleast := isLeast_next hstem h
  exact Int.le_antisymm (hleast.2 ⟨Int.le_refl _, hbelow⟩) hleast.1.1

theorem Grows.numbersBelow (h : Grows before after)
    (hstem : before.ids.stem = ({} : IdSource).stem) (hn : 0 ≤ before.ids.next)
    (hbelow : before.page.NumbersBelow before.ids.next) :
    after.page.NumbersBelow after.ids.next := by
  intro id n hc hnumber
  rcases h.contains hc with hc | ⟨m, hle, hlt, rfl⟩
  · exact Int.lt_of_lt_of_le (hbelow id n hc hnumber) h.next_le
  · obtain ⟨k, rfl⟩ := Int.eq_ofNat_of_zero_le (Int.le_trans hn hle)
    rw [← IdSource.number?_congr hstem] at hnumber
    cases hnumber.symm.trans (before.ids.number?_idOf_of_reads ⟨_, hnumber⟩)
    exact hlt

end Draft

namespace Session

open Archive

variable {catalog : Catalog} {initial loaded : Snapshot} {start s t : Session}
  {past later : List Event} {event : Event}

/-! ## Sessions past their numbers -/

/-- The next number of a session is above all numbers of the pages it has. -/
structure PastNumbers (s : Session) : Prop where
  stem : s.draft.ids.stem = ({} : IdSource).stem
  next_nonneg : 0 ≤ s.draft.ids.next
  below : ∀ page, s.Holds page → page.NumbersBelow s.draft.ids.next

theorem PastNumbers.congr (h : PastNumbers s) (hdraft : t.draft = s.draft)
    (htimeline : t.timeline.entries = s.timeline.entries) : PastNumbers t := by
  refine ⟨hdraft ▸ h.stem, hdraft ▸ h.next_nonneg, ?_⟩
  rw [hdraft]
  rintro page (rfl | ⟨entry, hm, rfl⟩)
  · exact h.below _ (Or.inl (by rw [hdraft]))
  · exact h.below _ (Or.inr ⟨entry, htimeline ▸ hm, rfl⟩)

theorem PastNumbers.commit (h : PastNumbers s) : PastNumbers s.commit :=
  ⟨h.stem, h.next_nonneg, fun page hp => h.below page hp.of_commit⟩

theorem PastNumbers.changed (h : PastNumbers s) : PastNumbers s.changed := by
  refine ⟨?_, ?_, fun page hp => ?_⟩ <;> rw [draft_changed]
  · exact h.stem
  · exact h.next_nonneg
  · exact h.below page hp.of_changed

theorem PastNumbers.withDraft (h : PastNumbers s) {after : Draft}
    (hgrows : Draft.Grows s.draft after) : PastNumbers (s.withDraft after) := by
  refine ⟨hgrows.stem.trans h.stem, Int.le_trans h.next_nonneg hgrows.next_le, ?_⟩
  rintro page (rfl | hm)
  · exact hgrows.numbersBelow h.stem h.next_nonneg (h.below _ (Or.inl rfl))
  · exact (h.below page (Or.inr hm)).mono hgrows.next_le

theorem PastNumbers.restored (h : PastNumbers s) {snapshot : Snapshot} {draft : Draft}
    (hdraft : Draft.ofPage s.draft.catalog s.draft.ids snapshot.page = .ok draft) :
    PastNumbers (s.restored snapshot draft) := by
  have hadvances := Draft.ofPage_advances hdraft
  refine ⟨hadvances.stem.trans h.stem, Int.le_trans h.next_nonneg hadvances.next_le, ?_⟩
  rintro page (rfl | hm)
  · show draft.page.NumbersBelow draft.ids.next
    rw [(IdSource.ofPage_eq hdraft).2]
    exact (Draft.isLeast_next h.stem hdraft).1.2
  · exact (h.below page (Or.inr hm)).mono hadvances.next_le

theorem PastNumbers.restore (h : PastNumbers s) (snapshot : Snapshot) :
    PastNumbers (stateOf (Session.restore snapshot s)) := by
  rcases restore_cases snapshot s with ⟨failure, hr⟩ | ⟨draft, hdraft, hr⟩
  · rw [hr]
    exact h
  · rw [hr]
    exact h.restored hdraft

theorem PastNumbers.next_restore (h : PastNumbers s) {snapshot : Snapshot}
    (hbelow : snapshot.page.NumbersBelow s.draft.ids.next) :
    (stateOf (Session.restore snapshot s)).draft.ids.next = s.draft.ids.next := by
  rcases restore_cases snapshot s with ⟨failure, hr⟩ | ⟨draft, hdraft, hr⟩
  · rw [hr]
    rfl
  · rw [hr]
    exact Draft.next_eq_of_below h.stem hdraft hbelow

theorem Move.pastNumbers {command : Command} (h : Move s command t) (hs : PastNumbers s) :
    PastNumbers t := by
  cases h with
  | kept => exact hs
  | edited _ hrun selection =>
    have hgrows := Draft.Edit.grows_of_run hrun
    exact PastNumbers.changed (PastNumbers.congr (hs.withDraft hgrows) rfl rfl)
  | halted _ hrun => exact hs.withDraft (Draft.Edit.grows_of_failed hrun)
  | loaded _ _ hdraft => exact (hs.restored hdraft).changed
  | travelled _ hentries =>
    apply PastNumbers.restore
    exact hs.congr rfl hentries
  | copied | selected | set | generated => exact hs.congr rfl rfl

theorem lasting_pastNumbers : Lasting (fun _ => True) PastNumbers where
  move _ hs hmove := hmove.pastNumbers hs
  enter hs := by
    unfold Session.enter
    split <;> exact hs.congr rfl rfl
  closed _ hs := hs.congr rfl rfl
  commit := PastNumbers.commit
  restore _ hu := hu.restore _

theorem pastNumbers_start {limit : Option Int} {preferences : Preferences}
    (h : Session.start catalog initial limit preferences = .ok start) :
    PastNumbers start ∧ IsLeast {n | 1 ≤ n ∧ initial.page.NumbersBelow n} start.draft.ids.next := by
  obtain ⟨draft, hdraft, rfl⟩ := exists_of_start h
  have hleast := Draft.isLeast_next rfl hdraft
  refine ⟨⟨?_, Int.le_trans (by decide) hleast.1.1, ?_⟩, hleast⟩
  · obtain ⟨source, hsource, rfl⟩ := IdSource.exists_of_ofPage hdraft
    exact (IdSource.advancePast_ok hsource).1
  · rintro page (rfl | ⟨entry, hm, rfl⟩)
    · show draft.page.NumbersBelow draft.ids.next
      rw [(IdSource.ofPage_eq hdraft).2]
      exact hleast.1.2
    · cases List.mem_singleton.1 hm
      exact hleast.1.2

/-! ## The end of the numbers -/

/-- The next number has too many digits to be written. -/
def Spent (s : Session) : Prop :=
  Number.fits s.draft.ids.next = false

theorem Spent.mono (h : Spent s) (hn : 0 ≤ s.draft.ids.next)
    (hle : s.draft.ids.next ≤ t.draft.ids.next) : Spent t := by
  rw [Spent, Bool.eq_false_iff] at h ⊢
  exact mt (fun hfits => Number.fits_of_le hfits (by omega)) h

/-- There is no way back from the end of the numbers. -/
theorem Event.spent_after (h : Spent event.before) (hs : PastNumbers event.before) :
    Spent event.after :=
  h.mono hs.next_nonneg event.advances.next_le

/-- Nothing is made when the numbers have come to their end. -/
theorem Event.created_of_spent (h : Spent event.before) : event.created = [] := by
  cases event with
  | enter | leave => rfl
  | call s command =>
    rw [List.eq_nil_iff_forall_not_mem]
    intro id hid
    obtain ⟨edit, effect, after, -, hrun, hdrawn⟩ := exists_edit_of_created hid
    rw [show (Event.call s command).created = _ from hdrawn, Draft.Edit.drawn,
      IdSource.drawMany_eq] at hid
    obtain ⟨i, hi, -⟩ := List.mem_map.1 hid
    have hlasts := IdSource.exhausted?_eq_none_iff.1 (Draft.Edit.lasts_of_run hrun) 0
      (Nat.zero_lt_of_lt (List.mem_range.1 hi))
    rw [Int.natCast_zero, Int.add_zero] at hlasts
    exact absurd hlasts (Bool.eq_false_iff.1 h)

/-! ## The next number -/

theorem created_of_none {command : Command} (hedit : command.edit? s = none) :
    command.created s = [] := by
  rw [Command.created, hedit]

/-- Unless it loads, a command takes the next number on by as many as it makes elements, or it makes
none and comes to the end of the numbers. -/
theorem Move.next_cases {command : Command} (h : Move s command t) (hs : PastNumbers s)
    (hnone : ∀ snapshot, ¬ (Event.call s command).Loads snapshot) :
    t.draft.ids.next = s.draft.ids.next + (command.created s).length ∨
      command.created s = [] ∧ Spent t := by
  -- Most commands leave the number as it is and make nothing.
  have hnothing {u : Session} (hnext : u.draft.ids.next = s.draft.ids.next)
      (hcreated : command.created s = []) :
      u.draft.ids.next = s.draft.ids.next + (command.created s).length ∨
        command.created s = [] ∧ Spent u := by
    left
    rw [hnext, hcreated]
    exact (Int.add_zero _).symm
  cases h with
  | @edited _ _ _ after hedit hrun selection =>
    left
    rw [draft_changed, created_eq hedit hrun, Draft.Edit.drawn, IdSource.drawMany_eq]
    show after.ids.next = _
    rw [Draft.Edit.ids_of_run hrun, IdSource.drawMany_eq, List.length_map, List.length_range]
  | @halted _ _ _ after hedit hrun =>
    have hcreated : command.created s = [] := by
      rw [Command.created, hedit]
      simp only [hrun]
    rcases Draft.Edit.ids_of_failed hrun with hids | ⟨hids, -⟩
    · exact hnothing (congrArg IdSource.next hids) hcreated
    · obtain ⟨-, -, -, hlong⟩ := IdSource.exhausted?_eq_some hids
      exact Or.inr ⟨hcreated, hlong⟩
  | loaded hread hcheck hdraft =>
    exact absurd ⟨hread, _, _, run_load hread hcheck hdraft⟩ (hnone _)
  | @travelled _ timeline ht hentries _ =>
    apply hnothing
    · have hs' : PastNumbers { s with timeline := timeline } := hs.congr rfl hentries
      exact hs'.next_restore (hs'.below _ (Or.inr ⟨_, timeline.present_mem_entries, rfl⟩))
    · cases command <;> first | exact ht.elim | rfl
  | copied => exact hnothing rfl rfl
  | kept hedit => exact hnothing rfl (created_of_none hedit)
  | selected hedit => exact hnothing rfl (created_of_none hedit)
  | set hedit => exact hnothing rfl (created_of_none hedit)
  | generated hedit => exact hnothing rfl (created_of_none hedit)

/-- What a batch that is given up restores was there when it was opened. -/
theorem Event.next_cases (hs : PastNumbers event.before)
    (hopened : ∀ opened result, event = .leave opened result →
      opened.draft.page.NumbersBelow event.before.draft.ids.next)
    (hnone : ∀ snapshot, ¬ event.Loads snapshot) :
    event.after.draft.ids.next = event.before.draft.ids.next + event.created.length ∨
      event.created = [] ∧ Spent event.after := by
  cases event with
  | call s command => exact (command.run_moves s).next_cases hs hnone
  | enter s =>
    left
    show s.enter.draft.ids.next = s.draft.ids.next + 0
    unfold Session.enter
    split <;> exact (Int.add_zero _).symm
  | leave opened result =>
    have hleave : PastNumbers (stateOf (opened.leave result)) ∧
        (stateOf (opened.leave result)).draft.ids.next = (stateOf result).draft.ids.next := by
      apply @stateOf_leave _ fun t =>
        PastNumbers t ∧ t.draft.ids.next = (stateOf result).draft.ids.next
      case hclosed => exact fun n => ⟨hs.congr rfl rfl, rfl⟩
      case hcommit => exact fun hu => ⟨hu.1.commit, hu.2⟩
      case hrestore =>
        rintro u ⟨hu, hnext⟩
        refine ⟨hu.restore _, (hu.next_restore ?_).trans hnext⟩
        rw [hnext]
        exact hopened opened result rfl
    exact Or.inl (hleave.2.trans (Int.add_zero _).symm)

/-- Loading takes the next number past all numbers of the snapshot and no further. -/
theorem Event.isLeast_next (hs : PastNumbers event.before) (h : event.Loads loaded) :
    IsLeast {n | event.before.draft.ids.next ≤ n ∧ loaded.page.NumbersBelow n}
      event.after.draft.ids.next := by
  obtain ⟨draft, hdraft, hafter, -⟩ := exists_of_loads h
  rw [hafter]
  exact Draft.isLeast_next hs.stem hdraft

/-- The ids of new elements follow one another. -/
theorem Event.created_eq (event : Event) : event.created =
    (List.range event.created.length).map fun i : Nat =>
      event.before.draft.ids.idOf (event.before.draft.ids.next + i) := by
  cases hcreated : event.created with
  | nil => rfl
  | cons id rest =>
    cases event with
    | enter | leave => cases hcreated
    | call s command =>
      have hid : id ∈ command.created s := by
        rw [show command.created s = id :: rest from hcreated]
        exact List.mem_cons_self
      obtain ⟨edit, effect, after, hedit, hrun, hdrawn⟩ := exists_edit_of_created hid
      rw [Draft.Edit.drawn, IdSource.drawMany_eq] at hdrawn
      have hlength : (command.created s).length = edit.draws := by
        rw [hdrawn, List.length_map, List.length_range]
      rw [← hcreated, show (Event.call s command).created.length = edit.draws from hlength]
      exact hdrawn

/-! ## Histories -/

theorem History.pastNumbers (h : History start past s) (hstart : PastNumbers start) :
    PastNumbers s ∧ ∀ {u}, .enter u ∈ past → PastNumbers u :=
  h.lasting lasting_pastNumbers hstart fun _ _ => trivial

theorem History.next_cases (h : History start (past ++ [event]) s) (hstart : PastNumbers start)
    (hnone : ∀ snapshot, ¬ event.Loads snapshot) :
    event.after.draft.ids.next = event.before.draft.ids.next + event.created.length ∨
      event.created = [] ∧ Spent event.after := by
  obtain ⟨hbefore, hclose, -⟩ := h.split
  obtain ⟨hpast, hopened⟩ := hbefore.pastNumbers hstart
  refine Event.next_cases hpast ?_ hnone
  rintro opened result rfl
  have hbelow := (hopened hclose).below opened.draft.page (Or.inl rfl)
  obtain ⟨earlier, rest, rfl⟩ := List.append_of_mem hclose
  rw [List.append_cons] at hbefore
  have henter := hbefore.advances
  rw [reached_concat] at henter
  exact hbelow.mono ((advances_enter opened).trans henter).next_le

/-- As long as nothing else is loaded, the ids of new elements follow one another through a whole
run, whatever is undone and given up in between. -/
theorem History.created_eq (h : History start (past ++ later) s) (hstart : PastNumbers start)
    (hnone : ∀ event ∈ later, ∀ snapshot, ¬ event.Loads snapshot) :
    later.flatMap Event.created = (List.range (later.flatMap Event.created).length).map
        (fun i : Nat => ({} : IdSource).idOf ((reached start past).draft.ids.next + i)) ∧
      (s.draft.ids.next = (reached start past).draft.ids.next +
        (later.flatMap Event.created).length ∨ Spent s) := by
  -- Events are taken from the end, where the history was built up.
  induction later using List.reverseRecOn generalizing s with
  | nil =>
    rw [List.append_nil] at h
    rw [h.reached_eq]
    exact ⟨rfl, Or.inl (Int.add_zero _).symm⟩
  | append_singleton later event ih =>
    rw [← List.append_assoc] at h
    obtain ⟨hbefore, -, rfl⟩ := h.split
    obtain ⟨hids, hnext⟩ := ih hbefore fun e he => hnone e (List.mem_append_left _ he)
    have hpast := (hbefore.pastNumbers hstart).1
    rw [List.flatMap_append, List.flatMap_singleton, List.length_append]
    rcases hnext with hnext | hspent
    · constructor
      · rw [List.range_add, List.map_append, ← hids, List.map_map]
        congr 1
        refine event.created_eq.trans (List.map_congr_left fun i _ => ?_)
        rw [Function.comp_apply, IdSource.idOf_congr hpast.stem, hnext]
        congr 1
        omega
      · have hevent := h.next_cases hstart
          (hnone event (List.mem_append_right _ List.mem_cons_self))
        refine hevent.imp (fun heq => ?_) And.right
        rw [heq, hnext]
        omega
    · rw [Event.created_of_spent hspent, List.append_nil, List.length_nil, Nat.add_zero]
      exact ⟨hids, Or.inr (Event.spent_after hspent hpast)⟩

/-- The next number is bounded by those that have been loaded and the count of new elements, unless
the numbers have come to their end. -/
theorem History.next_le (h : History start past s) (hstart : PastNumbers start) {bound : Int}
    (hfirst : start.draft.ids.next ≤ bound)
    (hloaded : ∀ event ∈ past, ∀ snapshot, event.Loads snapshot →
      snapshot.page.NumbersBelow bound) :
    s.draft.ids.next ≤ bound + (past.flatMap Event.created).length ∨ Spent s := by
  induction h with
  | start => exact Or.inl (by simpa using hfirst)
  | @next past event h hclose ih =>
    have hpast := (h.pastNumbers hstart).1
    rw [List.flatMap_append, List.flatMap_singleton, List.length_append]
    rcases ih fun e he => hloaded e (List.mem_append_left _ he) with hbefore | hspent
    · by_cases hloads : ∃ snapshot, event.Loads snapshot
      · obtain ⟨snapshot, hloads⟩ := hloads
        have hbelow := hloaded event (List.mem_append_right _ List.mem_cons_self) snapshot hloads
        refine Or.inl ((Event.isLeast_next hpast hloads).2 ⟨by omega, hbelow.mono (by omega)⟩)
      · have hevent := (h.next hclose).next_cases hstart fun snapshot hs => hloads ⟨snapshot, hs⟩
        exact hevent.imp (fun heq => by omega) And.right
    · exact Or.inr (Event.spent_after hspent hpast)

/-- The number of a new id is between the next one of any time before and that of any time after. -/
theorem History.exists_number (h : History start (past ++ later) s) (hstart : PastNumbers start)
    (he : event ∈ later) {id : String} (hid : id ∈ event.created) :
    ∃ n : Nat, id = ({} : IdSource).idOf n ∧ (reached start past).draft.ids.next ≤ n ∧
      n < s.draft.ids.next := by
  obtain ⟨middle, rest, rfl⟩ := List.append_of_mem he
  rw [List.append_cons, ← List.append_assoc, ← List.append_assoc] at h
  have hafter := h.advances
  rw [reached_concat] at hafter
  obtain ⟨hhistory, -, -⟩ := h.earlier.split
  have hpast := (hhistory.pastNumbers hstart).1
  obtain ⟨n, hle, hlt, rfl⟩ := Event.handedOut_of_created hid
  obtain ⟨m, rfl⟩ := Int.eq_ofNat_of_zero_le (Int.le_trans hpast.next_nonneg hle)
  exact ⟨m, IdSource.idOf_congr hpast.stem _, Int.le_trans hhistory.advances.next_le hle,
    Int.lt_of_lt_of_le hlt hafter.next_le⟩

/-- As long as the numbers loaded and the count of new elements leave room within sixty-one digits,
all ids are valid and short. -/
theorem History.length_le (h : History start past s) (hstart : PastNumbers start) {bound : Int}
    (hfirst : start.draft.ids.next ≤ bound)
    (hloaded : ∀ event ∈ past, ∀ snapshot, event.Loads snapshot → snapshot.page.NumbersBelow bound)
    (hroom : bound + (past.flatMap Event.created).length ≤ 10 ^ 61) :
    ∀ event ∈ past, ∀ id ∈ event.created, id.length ≤ 64 ∧ Element.isValidId id = true := by
  intro event he id hid
  obtain ⟨before, after, rfl⟩ := List.append_of_mem he
  rw [List.append_cons] at h
  obtain ⟨hbefore, -, -⟩ := h.earlier.split
  obtain ⟨hstem, hnonneg, -⟩ := (hbefore.pastNumbers hstart).1
  have hnext : event.before.draft.ids.next ≤ bound + (before.flatMap Event.created).length := by
    refine (hbefore.next_le hstart hfirst fun e he => hloaded e (by simp [he])).resolve_right ?_
    intro hspent
    rw [Event.created_of_spent hspent] at hid
    cases hid
  rw [Event.created_eq] at hid
  obtain ⟨i, hi, rfl⟩ := List.mem_map.1 hid
  rw [List.mem_range] at hi
  obtain ⟨n, hn⟩ := Int.eq_ofNat_of_zero_le hnonneg
  have hsmall : n + i < 10 ^ 61 := by
    rw [List.flatMap_append, List.flatMap_cons, List.length_append, List.length_append] at hroom
    omega
  rw [hn, ← Int.natCast_add]
  exact ⟨(IdSource.length_idOf_le_iff hstem).2 hsmall, (IdSource.isValidId_idOf_iff hstem).2 hsmall⟩

/-! ## Documents of one container -/

/-- A document of one container. -/
def containerJson (id : String) : Json :=
  .object [("elements", .object [(id, .object [("kind", .str "container")])]), ("root", .str id)]

def containerText (id : String) : String :=
  (containerJson id).pretty ++ "\n"

/-- The snapshot that such a document is read as. -/
def containerAlone (id : String) : Snapshot where
  page := {
    elements := .ofList [(id, ⟨id, "container", .empty, .empty, [], none⟩)]
    root := some id }

theorem distinct_containerJson (id : String) : (containerJson id).Distinct := by
  simp [containerJson, Json.Distinct, Json.DistinctMembers]

theorem arranged_containerJson (id : String) : (containerJson id).arranged = containerJson id := by
  simp only [containerJson, Json.arranged, Json.arrangedMembers, Json.byKey,
    List.mergeSort_singleton]
  rw [List.mergeSort_of_pairwise]
  simp only [List.pairwise_pair, decide_eq_true_eq]
  decide

theorem problems_containerAlone (h : catalog.contains "container" = true) (id : String)
    (checkKinds : Bool) : (containerAlone id).page.problems catalog checkKinds = [] := by
  let e : Element := ⟨id, "container", .empty, .empty, [], none⟩
  have hdetached : Page.Detached [e] := Page.detached_single rfl rfl
  have hadmits : Page.Admits catalog (.ofNodes [e]) checkKinds :=
    Page.admits_single rfl (fun _ => h) fun _ hm => absurd hm List.not_mem_nil
  exact Page.problems_eq_nil_iff.2 ⟨hdetached.linked.isTree, hadmits⟩

theorem read_containerText {id : String} (h : Element.isValidId id = true) :
    Archive.read (containerText id) .builtIn = .ok (containerAlone id) := by
  have helements : elementsOfShape [(id, ⟨"container", [], [], [], none⟩)] =
      .ok [(id, ⟨id, "container", .empty, .empty, [], none⟩)] := by
    simp only [elementsOfShape, elementOfShape, h]
    rfl
  obtain ⟨source, hdraft⟩ := @IdSource.exists_ofPage {} (containerAlone id).page .builtIn
    (List.forall_mem_singleton.2 (IdSource.reads_of_isValidId _ h))
  have hnone := @problems_containerAlone Catalog.builtIn.orBuiltIn rfl id false
  rw [Archive.read, containerText, Json.read_pretty (distinct_containerJson id) rfl,
    arranged_containerJson]
  show ofJson (containerJson id) .builtIn = .ok (containerAlone id)
  have hshape : documentShape (containerJson id) =
      .ok ⟨some id, [(id, ⟨"container", [], [], [], none⟩)], [], "desktop", 100⟩ := rfl
  unfold containerAlone at hdraft hnone
  rw [ofJson, hshape]
  simp only [helements, ok_bind, hdraft, hnone]
  rfl

theorem numbersBelow_containerAlone {id : String} {n bound : Int}
    (hnumber : ({} : IdSource).number? id = .ok (some n)) (hlt : n < bound) :
    (containerAlone id).page.NumbersBelow bound := by
  intro other m hc hm
  have hid : other ∈ [id] := ((containerAlone id).page.elements.contains_iff other).1 hc
  rw [List.mem_singleton.1 hid, hnumber] at hm
  cases hm
  exact hlt

/-- A session with the built-in catalog loads the text of such a document as its snapshot. -/
theorem load_containerText {limit : Option Int} {preferences : Preferences} {id : String}
    (hstart : Session.start .builtIn initial limit preferences = .ok start)
    (h : Element.isValidId id = true) :
    (Origin.text (containerText id)).read start.draft.catalog = .ok (containerAlone id) ∧
      (Command.load (.text (containerText id))).run start =
        (Command.load (.snapshot (containerAlone id))).run start := by
  have hread : (Origin.text (containerText id)).read start.draft.catalog =
      .ok (containerAlone id) := by
    rw [catalog_start hstart]
    exact read_containerText h
  have hload (origin : Origin) : (Command.load origin).run start =
      silently (lift (origin.read start.draft.catalog) >>= Session.load) start := rfl
  refine ⟨hread, ?_⟩
  rw [hload, hload, hread]
  rfl

/-! ## New elements after a load -/

/-- In every run, whatever it loads: an id that is handed out after a snapshot has been loaded has a
number above all those of the snapshot, and is valid as long as that has no more than sixty-one
digits; without another load in between the ids follow one another, from the least number possible.
So if the numbers of what is loaded and the count of new elements leave room, all of them are valid,
and what is shown then can be saved and is read back, unless a prop is an integer of too many
digits. -/
theorem created_after_load {limit : Option Int} {preferences : Preferences} {steps : List Step}
    {rest : List Event} {loading : Event}
    (hstart : Session.start catalog initial limit preferences = .ok start)
    (hevents : events start steps = past ++ [loading] ++ later ++ rest)
    (hloads : loading.Loads loaded) :
    (∀ event ∈ later, ∀ id ∈ event.created, ∃ n : Nat, id = ({} : IdSource).idOf n ∧
      loaded.page.NumbersBelow n ∧ (Element.isValidId id = true ↔ n < 10 ^ 61)) ∧
    ((∀ event ∈ later, ∀ snapshot, ¬ event.Loads snapshot) → ∃ first : Nat,
      IsLeast {n | loading.before.draft.ids.next ≤ n ∧ loaded.page.NumbersBelow n} (first : Int) ∧
      later.flatMap Event.created = (List.range (later.flatMap Event.created).length).map
        fun i : Nat => ({} : IdSource).idOf (first + i)) ∧
    ∀ bound : Nat, 0 < bound → initial.page.NumbersBelow bound →
      (∀ event ∈ past ++ [loading] ++ later, ∀ snapshot, event.Loads snapshot →
        snapshot.page.NumbersBelow bound) →
      bound + ((past ++ [loading] ++ later).flatMap Event.created).length ≤ 10 ^ 61 →
      (∀ event ∈ past ++ [loading] ++ later, ∀ id ∈ event.created,
        Element.isValidId id = true) ∧
      (catalog.Fit → Initial catalog initial →
        (∀ event ∈ past ++ [loading] ++ later, ∀ given ∈ event.given, Sanctioned catalog given) →
        let shown := (reached start (past ++ [loading] ++ later)).snapshot
        (Writable shown → ∃ text again, Archive.write shown = .ok text ∧
          Archive.read text catalog = .ok again ∧ again.SameContent shown) ∧
        (¬ Writable shown → Archive.write shown = .error (.noText .longInteger))) := by
  obtain ⟨hpast, hfirst⟩ := pastNumbers_start hstart
  have hhistory := history_of_events hevents
  have hbefore := (hhistory.earlier.split.1.pastNumbers hpast).1
  have hleast := Event.isLeast_next hbefore hloads
  have hafter : (reached start (past ++ [loading])).draft.ids.next = loading.after.draft.ids.next :=
    by rw [reached_concat]
  refine ⟨fun event he id hid => ?_, fun hnone => ?_, fun bound hpos hinitial hbelow hroom => ?_⟩
  · obtain ⟨n, rfl, hle, -⟩ := hhistory.exists_number hpast he hid
    rw [hafter] at hle
    exact ⟨n, rfl, hleast.1.2.mono hle, IdSource.isValidId_idOf_iff rfl⟩
  -- Without another load the source of ids only counts on.
  · obtain ⟨hids, -⟩ := hhistory.created_eq hpast hnone
    have hnonneg := Int.le_trans hbefore.next_nonneg hleast.1.1
    obtain ⟨first, hn⟩ := Int.eq_ofNat_of_zero_le hnonneg
    rw [hafter, hn] at hids
    exact ⟨first, hn ▸ hleast, hids⟩
  -- Every new id takes one number, and a load moves the source past numbers that are below the
  -- bound.
  · have hshort := hhistory.length_le hpast (hfirst.2 ⟨by omega, hinitial⟩) hbelow (by omega)
    refine ⟨fun event he id hid => (hshort event he id hid).2, fun hfit hinit hgiven => ?_⟩
    have hdurable := reached_durable hfit hinit hstart hevents
      (fun event he given hm => (hgiven event he given hm).valid hfit)
      fun event he id hid => (hshort event he id hid).1
    exact ⟨read_write hdurable.shown, fun hw => (write_eq_error hdurable.shown hw).1⟩

/-- Numbers have leading zeros in what is loaded, and one of the new ids is undone. -/
theorem created_after_load_zeros :
    let commands : List Command := [.insert (some "el_007") "text" none .empty .empty, .undo,
      .duplicate "el_007", .insert (some "el_007") "text" none .empty .empty]
    let loading : Command := .load (.text (containerText "el_007"))
    ∃ start later, Session.start .builtIn .empty none {} = .ok start ∧
      events start ((loading :: commands).map (.command · false)) =
        [] ++ [.call start loading] ++ later ++ [] ∧
      (Event.call start loading).Loads (containerAlone "el_007") ∧
      later.map Event.created = [["el_8"], [], [], ["el_9"]] ∧
      (∀ event ∈ later, ∀ id ∈ event.created, Element.isValidId id = true) ∧
      ∃ text again, Archive.read text .builtIn = .ok again ∧
        again.SameContent (reached start ([] ++ [.call start loading] ++ later)).snapshot := by
  intro commands loading
  have hrun : ((Session.start .builtIn .empty none {}).toOption.any fun start =>
      succeeds ((Command.load (.snapshot (containerAlone "el_007"))).run start) fun _ t =>
        let inserted := events t (commands.map (.command · false))
        inserted.map Event.created = [["el_8"], [], [], ["el_9"]] &&
          Writable (reached t inserted).snapshot) = true := by
    decide +kernel
  obtain ⟨start, hstart, hrun⟩ := exists_of_any hrun
  obtain ⟨reply, t, hload, hrun⟩ := exists_of_succeeds hrun
  obtain ⟨hcreated, hwritable⟩ := Bool.and_eq_true_iff.1 hrun
  have hcreated := of_decide_eq_true hcreated
  have hwritable := of_decide_eq_true hwritable
  have hseven : Element.isValidId "el_007" = true := by decide
  obtain ⟨hread, hrun⟩ := load_containerText hstart hseven
  rw [← hrun] at hload
  have hloads : (Event.call start loading).Loads (containerAlone "el_007") :=
    ⟨hread, reply, t, hload⟩
  have hevents : events start ((loading :: commands).map (.command · false)) =
      [] ++ [.call start loading] ++ events t (commands.map (.command · false)) ++ [] := by
    rw [List.map_cons, events_of_ok hload, List.append_nil]
    rfl
  have hlater : ∀ event ∈ events t (commands.map (.command · false)),
      event.given = [] ∧ ∀ snapshot, ¬ event.Loads snapshot := by
    intro event he
    obtain ⟨u, command, hm, rfl⟩ := exists_call_of_mem he
    simp only [commands, List.mem_cons, List.not_mem_nil, or_false] at hm
    rcases hm with rfl | rfl | rfl | rfl <;> exact ⟨rfl, nofun⟩
  generalize events t (commands.map (.command · false)) = later at hcreated hwritable hevents hlater
  have hreached : reached start ([] ++ [.call start loading] ++ later) = reached t later := by
    rw [List.nil_append, List.singleton_append, reached_of_ok hload]
  have hbelow : ∀ event ∈ [] ++ [.call start loading] ++ later, ∀ snapshot,
      event.Loads snapshot → snapshot.page.NumbersBelow (8 : Nat) := by
    intro event he snapshot hs
    simp only [List.nil_append, List.singleton_append, List.mem_cons] at he
    rcases he with rfl | he
    · cases hread.symm.trans hs.1
      exact numbersBelow_containerAlone (n := 7) (by decide) (by decide)
    · exact absurd hs ((hlater event he).2 snapshot)
  have hgiven : ∀ event ∈ [] ++ [.call start loading] ++ later, ∀ given ∈ event.given,
      Sanctioned .builtIn given := by
    intro event he
    simp only [List.nil_append, List.singleton_append, List.mem_cons] at he
    rcases he with rfl | he
    · exact nofun
    · rw [(hlater event he).1]
      exact nofun
  have hroom : 8 + (([] ++ [Event.call start loading] ++ later).flatMap Event.created).length ≤
      10 ^ 61 := by
    rw [List.nil_append, List.flatMap_append, @List.flatMap_def _ _ later, hcreated,
      List.flatMap_singleton, show (Event.call start loading).created = [] from rfl]
    decide
  obtain ⟨hvalid, hsaved⟩ := (created_after_load hstart hevents hloads).2.2 8 (by decide)
    (fun id n hc => nomatch hc) hbelow hroom
  obtain ⟨text, again, -, hagain, hsame⟩ :=
    (hsaved Catalog.builtIn_fit (Or.inl rfl) hgiven).1 (hreached ▸ hwritable)
  exact ⟨start, later, hstart, hevents, hloads, hcreated,
    fun event he => hvalid event (List.mem_append_right _ he), text, again, hagain, hsame⟩

/-- A document with the highest number that an id may have is read and loaded, but the next id is
too long: what is saved with it is not read back. -/
theorem created_after_load_highest :
    let highest := ({} : IdSource).idOf ((10 ^ 61 - 1 : Nat) : Int)
    let steps : List Step := [.command (.load (.text (containerText highest))) false,
      .command (.insert (some highest) "text" none .empty .empty) false]
    Archive.read (containerText highest) .builtIn = .ok (containerAlone highest) ∧
    ∃ start id text, Session.start .builtIn .empty none {} = .ok start ∧
      (events start steps).map Event.created = [[], [id]] ∧ Element.isValidId id = false ∧
      Archive.write (reached start (events start steps)).snapshot = .ok text ∧
      ∀ again, Archive.read text .builtIn ≠ .ok again := by
  intro highest steps
  set next := ({} : IdSource).idOf ((10 ^ 61 : Nat) : Int) with hnext
  set shown : Snapshot := {
    page := {
      elements := .ofList [(highest, ⟨highest, "container", .empty, .empty, [next], none⟩),
        (next, ⟨next, "text", .ofList [("text", .str "Text")], .empty, [], some highest⟩)]
      root := some highest }
    selection := [next] } with hshown
  have hrun : ((Session.start .builtIn .empty none {}).toOption.any fun start =>
      succeeds ((Command.load (.snapshot (containerAlone highest))).run start) fun _ t =>
        let inserted := events t
          [.command (.insert (some highest) "text" none .empty .empty) false]
        inserted.map Event.created = [[next]] && (reached t inserted).snapshot = shown) = true := by
    decide +kernel
  obtain ⟨start, hstart, hrun⟩ := exists_of_any hrun
  obtain ⟨reply, t, hload, hrun⟩ := exists_of_succeeds hrun
  obtain ⟨hcreated, hshown⟩ := Bool.and_eq_true_iff.1 hrun
  have hcreated := of_decide_eq_true hcreated
  have hshown := of_decide_eq_true hshown
  have hhighest : Element.isValidId highest = true :=
    (IdSource.isValidId_idOf_iff rfl).2 (by decide)
  rw [← (load_containerText hstart hhighest).2] at hload
  have hevents : events start steps = .call start (.load (.text (containerText highest))) ::
      events t [.command (.insert (some highest) "text" none .empty .empty) false] :=
    events_of_ok hload _
  have hinvalid : Element.isValidId next = false := by
    rw [← Bool.not_eq_true, hnext, IdSource.isValidId_idOf_iff rfl]
    exact Nat.lt_irrefl _
  have hwrite : Archive.write shown = .ok (shown.saved.pretty ++ "\n") := rfl
  refine ⟨read_containerText hhighest, start, next, shown.saved.pretty ++ "\n", hstart, ?_,
    hinvalid, ?_, ?_⟩
  · rw [hevents, List.map_cons, hcreated]
    rfl
  · rw [hevents, reached_of_ok hload, hshown]
    exact hwrite
  · intro again hagain
    have hvalid : Element.isValidId next = true :=
      Archive.isValidId_of_read_saved rfl hagain (by decide +kernel)
    rw [hinvalid] at hvalid
    cases hvalid

end Session

end PageBuilder
