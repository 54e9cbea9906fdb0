import Mathlib.Data.List.Basic
import PageBuilder.Timeline

/-!
# A limited timeline is a window on the unlimited one

A limit makes a timeline forget its oldest entries and nothing else.  Asked for the same things, a
timeline with a limit and one without stay in step: `Window` says that they differ in the far end
of the past alone, `Window.run` that every request keeps it so.

The one request that tells the two apart is an undo at the oldest entry that was kept, where only
the unlimited timeline can go further back.  So the requests compared are those in which undo is
asked for only where there is something to go back to (`Backed`).
-/

namespace PageBuilder.Timeline

variable {α : Type}

/-- What a timeline can be asked for. -/
inductive Request (α : Type)
  | commit (entry : α)
  | undo
  | redo
  | reset (entry : α)
deriving DecidableEq, Repr

def Request.run (t : Timeline α) : Request α → Timeline α
  | .commit entry => t.commit entry
  | .undo => t.undo
  | .redo => t.redo
  | .reset entry => t.reset entry

/-- The timeline after requests in order. -/
def runAll (t : Timeline α) (requests : List (Request α)) : Timeline α :=
  requests.foldl Request.run t

/-- Undo is asked for only where there is something to go back to. -/
def Backed (t : Timeline α) : List (Request α) → Prop
  | [] => True
  | request :: rest => (request = .undo → t.canUndo = true) ∧ (request.run t).Backed rest

theorem Backed.take {t : Timeline α} {requests : List (Request α)} (h : t.Backed requests)
    (n : Nat) : t.Backed (requests.take n) := by
  induction requests generalizing t n with
  | nil =>
    rw [List.take_nil]
    exact h
  | cons request rest ih =>
    cases n with
    | zero => exact trivial
    | succ n => exact ⟨h.1, ih h.2 n⟩

/-! ## The cursor -/

theorem cursor_lt_length (t : Timeline α) : t.cursor < t.length := by
  unfold cursor length
  omega

/-- The present entry is the one at the cursor. -/
theorem getElem?_cursor (t : Timeline α) : t.entries[t.cursor]? = some t.present := by
  have hlen : t.cursor = t.past.reverse.length := List.length_reverse.symm
  rw [entries, hlen, List.getElem?_append_right (Nat.le_refl _), Nat.sub_self,
    List.getElem?_cons_zero]

theorem undo_of_not_canUndo {t : Timeline α} (h : t.canUndo = false) : t.undo = t := by
  have hpast : t.past = [] := by simpa [canUndo] using h
  unfold undo
  rw [hpast]

theorem redo_of_not_canRedo {t : Timeline α} (h : t.canRedo = false) : t.redo = t := by
  have hfuture : t.future = [] := by simpa [canRedo] using h
  unfold redo
  rw [hfuture]

theorem limit_run (t : Timeline α) (request : Request α) : (request.run t).limit = t.limit := by
  cases request with
  | commit entry => rfl
  | undo => exact t.limit_undo
  | redo => exact t.limit_redo
  | reset entry => rfl

/-! ## The limit -/

/-- There is room for the present entry, and for no more than the limit lets stay. -/
def WithinLimit (t : Timeline α) : Prop :=
  ∀ k, t.limit = some k → 1 ≤ k ∧ t.length ≤ k

theorem withinLimit_start (entry : α) (limit : Option Int) : (start entry limit).WithinLimit := by
  intro k hk
  cases limit with
  | none => cases hk
  | some n =>
    have hlimit : (if n < 1 then none else some n.toNat) = some k := hk
    split at hlimit
    · cases hlimit
    · obtain rfl := Option.some.inj hlimit
      refine ⟨by omega, ?_⟩
      show 0 + 1 + 0 ≤ n.toNat
      omega

theorem length_undo (t : Timeline α) : t.undo.length = t.length := by
  rw [← length_entries, ← length_entries, entries_undo]

theorem length_redo (t : Timeline α) : t.redo.length = t.length := by
  rw [← length_entries, ← length_entries, entries_redo]

theorem length_commit_le {t : Timeline α} {k : Nat} (hk : t.limit = some k) (hpos : 1 ≤ k)
    (entry : α) : (t.commit entry).length ≤ k := by
  have hpast : (t.commit entry).past = (t.present :: t.past).take (k - 1) := by
    show keep t.limit (t.present :: t.past) = _
    rw [hk]
    rfl
  have hfuture : (t.commit entry).future = [] := rfl
  unfold length
  rw [hpast, hfuture, List.length_take, List.length_nil]
  omega

theorem WithinLimit.run {t : Timeline α} (h : t.WithinLimit) (request : Request α) :
    (request.run t).WithinLimit := by
  intro k hk
  rw [limit_run] at hk
  obtain ⟨hpos, hle⟩ := h k hk
  refine ⟨hpos, ?_⟩
  cases request with
  | commit entry => exact length_commit_le hk hpos entry
  | undo => exact Nat.le_trans (Nat.le_of_eq t.length_undo) hle
  | redo => exact Nat.le_trans (Nat.le_of_eq t.length_redo) hle
  | reset entry =>
    show 0 + 1 + 0 ≤ k
    exact hpos

theorem WithinLimit.runAll {t : Timeline α} (h : t.WithinLimit) (requests : List (Request α)) :
    (t.runAll requests).WithinLimit := by
  induction requests generalizing t with
  | nil => exact h
  | cons request rest ih => exact ih (h.run request)

/-! ## What a commit keeps -/

/-- How many entries a commit drops for the limit. -/
def overflow (t : Timeline α) : Nat :=
  match t.limit with
  | none => 0
  | some k => t.cursor + 2 - k

theorem take_entries (t : Timeline α) :
    t.entries.take (t.cursor + 1) = t.past.reverse ++ [t.present] := by
  have hlen : t.cursor + 1 = (t.past.reverse ++ [t.present]).length := by
    rw [List.length_append, List.length_reverse]
    rfl
  have hsplit : t.entries = (t.past.reverse ++ [t.present]) ++ t.future := by
    simp [entries]
  rw [hsplit, hlen, List.take_left]

/-- A commit comes after the entries up to the cursor, of which the oldest are dropped if there
are more than the limit lets stay. -/
theorem entries_commit {t : Timeline α} (h : t.WithinLimit) (entry : α) :
    (t.commit entry).entries = (t.entries.take (t.cursor + 1) ++ [entry]).drop t.overflow := by
  have hkept : (t.commit entry).entries =
      (keep t.limit (t.present :: t.past)).reverse ++ [entry] := rfl
  rw [hkept, take_entries]
  unfold overflow
  cases hk : t.limit with
  | none => simp [keep]
  | some k =>
    obtain ⟨hpos, -⟩ := h k hk
    have hdropped : t.cursor + 2 - k = (t.present :: t.past).length - (k - 1) := by
      rw [List.length_cons]
      unfold cursor
      omega
    have hle : t.cursor + 2 - k ≤ (t.past.reverse ++ [t.present]).length := by
      rw [List.length_append, List.length_reverse, List.length_singleton]
      unfold cursor
      omega
    show ((t.present :: t.past).take (k - 1)).reverse ++ [entry] = _
    rw [List.drop_append_of_le_length hle, List.reverse_take, ← hdropped, List.reverse_cons]

/-! ## Two timelines in step -/

/-- The timeline `b` is the timeline `u` without some of its oldest entries. -/
structure Window (b u : Timeline α) : Prop where
  past : b.past <+: u.past
  present : b.present = u.present
  future : b.future = u.future
  unlimited : u.limit = none

namespace Window

variable {b u : Timeline α}

theorem start (entry : α) (limit : Option Int) :
    Window (.start entry limit) (.start entry none) :=
  ⟨List.prefix_refl [], rfl, rfl, rfl⟩

theorem commit (h : Window b u) (entry : α) : Window (b.commit entry) (u.commit entry) where
  past := by
    have hpast : b.present :: b.past <+: u.present :: u.past := by
      rw [h.present, List.cons_prefix_cons]
      exact ⟨rfl, h.past⟩
    show keep b.limit (b.present :: b.past) <+: keep u.limit (u.present :: u.past)
    rw [h.unlimited]
    cases b.limit with
    | none => exact hpast
    | some k => exact (List.take_prefix (k - 1) _).trans hpast
  present := rfl
  future := rfl
  unlimited := h.unlimited

/-- Where the limited timeline can go back, the unlimited one goes back to the same entry. -/
theorem undo (h : Window b u) (hb : b.canUndo = true) : Window b.undo u.undo := by
  cases hpast : b.past with
  | nil => simp [canUndo, hpast] at hb
  | cons entry past =>
    obtain ⟨oldest, hprefix⟩ := h.past
    rw [hpast, List.cons_append] at hprefix
    have hundo : b.undo =
        { b with past := past, present := entry, future := b.present :: b.future } := by
      simp [Timeline.undo, hpast]
    have hundo' : u.undo =
        { u with
          past := past ++ oldest, present := entry, future := u.present :: u.future } := by
      simp [Timeline.undo, ← hprefix]
    rw [hundo, hundo']
    exact ⟨List.prefix_append past oldest, rfl, by rw [h.present, h.future], h.unlimited⟩

theorem redo (h : Window b u) : Window b.redo u.redo := by
  cases hfuture : b.future with
  | nil =>
    have hb : b.redo = b := by simp [Timeline.redo, hfuture]
    have hu : u.redo = u := by simp [Timeline.redo, ← h.future, hfuture]
    rw [hb, hu]
    exact h
  | cons entry future =>
    have hb : b.redo =
        { b with past := b.present :: b.past, present := entry, future := future } := by
      simp [Timeline.redo, hfuture]
    have hu : u.redo =
        { u with past := u.present :: u.past, present := entry, future := future } := by
      simp [Timeline.redo, ← h.future, hfuture]
    rw [hb, hu]
    refine ⟨?_, rfl, rfl, h.unlimited⟩
    show b.present :: b.past <+: u.present :: u.past
    rw [h.present, List.cons_prefix_cons]
    exact ⟨rfl, h.past⟩

theorem run (h : Window b u) {request : Request α}
    (hundo : request = .undo → b.canUndo = true) : Window (request.run b) (request.run u) := by
  cases request with
  | commit entry => exact h.commit entry
  | undo => exact h.undo (hundo rfl)
  | redo => exact h.redo
  | reset entry => exact ⟨List.prefix_refl [], rfl, rfl, h.unlimited⟩

theorem runAll (h : Window b u) {requests : List (Request α)} (hbacked : b.Backed requests) :
    Window (b.runAll requests) (u.runAll requests) := by
  induction requests generalizing b u with
  | nil => exact h
  | cons request rest ih => exact ih (h.run hbacked.1) hbacked.2

/-- In terms of entries and cursor: so many of the oldest entries are missing, and the cursor is
lower by as many. -/
theorem exists_offset (h : Window b u) :
    ∃ o ≤ u.cursor, b.entries = u.entries.drop o ∧ b.cursor = u.cursor - o := by
  obtain ⟨oldest, hpast⟩ := h.past
  have hcursor : u.cursor = b.cursor + oldest.length := by
    unfold cursor
    rw [← hpast, List.length_append]
  have hentries : u.entries = oldest.reverse ++ b.entries := by
    unfold entries
    rw [← hpast, ← h.present, ← h.future, List.reverse_append, List.append_assoc]
  refine ⟨oldest.length, by omega, ?_, by omega⟩
  rw [hentries, ← List.length_reverse, List.drop_left]

end Window

/-- A timeline limited to `k` entries is, after every request of a sequence in which it is asked to
undo only where it can, the unlimited timeline without some of its oldest entries, and has the same
present entry.  Whatever a timeline is asked for, its cursor points at an entry, a limit is kept
to, undo and redo at the ends change nothing, and a commit becomes the present and last entry, after
the entries up to the cursor less the oldest ones that the limit drops. -/
theorem limited_window (initial : α) {k : Nat} (hk : 1 ≤ k) :
    (∀ requests, (start initial (some k)).Backed requests → ∀ n,
      let bounded := (start initial (some k)).runAll (requests.take n)
      let unbounded := (start initial none).runAll (requests.take n)
      bounded.present = unbounded.present ∧
        ∃ o ≤ unbounded.cursor, bounded.entries = unbounded.entries.drop o ∧
          bounded.cursor = unbounded.cursor - o) ∧
    (∀ requests, ((start initial (some k)).runAll requests).length ≤ k) ∧
    ∀ limit requests,
      let t := (start initial limit).runAll requests
      t.entries.length = t.length ∧ t.cursor < t.length ∧
        t.entries[t.cursor]? = some t.present ∧
        (t.canUndo = false → t.undo = t) ∧ (t.canRedo = false → t.redo = t) ∧
        ∀ entry, (t.commit entry).canRedo = false ∧ (t.commit entry).present = entry ∧
          (t.commit entry).entries =
            (t.entries.take (t.cursor + 1) ++ [entry]).drop t.overflow := by
  -- A positive limit is taken as it is and never changed.
  have hlimit (requests : List (Request α)) :
      ((start initial (some k)).runAll requests).limit = some k := by
    have hstart : (start initial (some (k : Int))).limit = some k := by
      simp [start, properLimit]
      omega
    rw [← hstart]
    generalize start initial (some (k : Int)) = t
    induction requests generalizing t with
    | nil => rfl
    | cons request rest ih => exact (ih (request.run t)).trans (limit_run t request)
  refine ⟨?_, ?_, ?_⟩
  · intro requests hbacked n
    have hwindow := (Window.start initial (some (k : Int))).runAll (hbacked.take n)
    exact ⟨hwindow.present, hwindow.exists_offset⟩
  · intro requests
    exact (((withinLimit_start initial (some (k : Int))).runAll requests) k (hlimit requests)).2
  · intro limit requests t
    have hwithin : t.WithinLimit := (withinLimit_start initial limit).runAll requests
    exact ⟨t.length_entries, t.cursor_lt_length, t.getElem?_cursor, undo_of_not_canUndo,
      redo_of_not_canRedo, fun entry => ⟨rfl, rfl, entries_commit hwithin entry⟩⟩

/-- Two entries are kept; after an undo at the limit the timeline goes on another way. -/
theorem limited_window_two :
    let requests : List (Request Nat) := [.commit 1, .commit 2, .undo, .commit 3, .commit 4]
    let bounded := (start 0 (some (2 : Nat))).runAll (requests.take 5)
    let unbounded := (start 0 none).runAll (requests.take 5)
    1 ≤ 2 ∧ (start 0 (some (2 : Nat))).Backed requests ∧
      bounded.entries = [3, 4] ∧ unbounded.entries = [0, 1, 3, 4] ∧
      bounded.present = unbounded.present ∧
        ∃ o ≤ unbounded.cursor, bounded.entries = unbounded.entries.drop o ∧
          bounded.cursor = unbounded.cursor - o := by
  intro requests bounded unbounded
  have hbacked : (start 0 (some (2 : Nat))).Backed requests :=
    ⟨nofun, nofun, fun _ => rfl, nofun, nofun, trivial⟩
  exact ⟨by decide, hbacked, by decide, by decide,
    (limited_window 0 (by decide : 1 ≤ 2)).1 requests hbacked 5⟩

end PageBuilder.Timeline
