/-!
# Timelines

A timeline is a linear history: the present entry, the entries before it and the entries that
were undone.  Committing an entry forgets the undone ones and, when there is a limit, the oldest
ones above it.  Undo and redo never fail: at the ends they stay where they are.
-/

namespace PageBuilder

/-- A present entry between past and future ones. -/
structure Timeline (α : Type) where
  /-- Earlier entries, the latest first. -/
  past : List α := []
  present : α
  /-- Undone entries, the next one first. -/
  future : List α := []
  /-- The greatest number of entries kept, if there is one; it is never zero. -/
  limit : Option Nat := none
deriving DecidableEq, Repr

namespace Timeline

variable {α : Type}

/-- A limit that can be kept: one that leaves no room for an entry is no limit. -/
def properLimit (limit : Option Int) : Option Nat :=
  match limit with
  | none => none
  | some n => if n < 1 then none else some n.toNat

def start (entry : α) (limit : Option Int) : Timeline α :=
  { present := entry, limit := properLimit limit }

/-- The entries in the order they were committed. -/
def entries (t : Timeline α) : List α :=
  t.past.reverse ++ t.present :: t.future

/-- The place of the present entry, from zero. -/
def cursor (t : Timeline α) : Nat :=
  t.past.length

/-- The place of the present entry, from one. -/
def position (t : Timeline α) : Nat :=
  t.cursor + 1

def length (t : Timeline α) : Nat :=
  t.past.length + 1 + t.future.length

def canUndo (t : Timeline α) : Bool :=
  !t.past.isEmpty

def canRedo (t : Timeline α) : Bool :=
  !t.future.isEmpty

/-- Of past entries, the latest first, those that a limit lets stay beside the present one. -/
def keep (limit : Option Nat) (past : List α) : List α :=
  match limit with
  | none => past
  | some n => past.take (n - 1)

/-- Makes an entry the present one, after what was the present. -/
def commit (t : Timeline α) (entry : α) : Timeline α :=
  { t with past := keep t.limit (t.present :: t.past), present := entry, future := [] }

/-- Goes back by one entry. -/
def undo (t : Timeline α) : Timeline α :=
  match t.past with
  | [] => t
  | entry :: past => { t with past := past, present := entry, future := t.present :: t.future }

/-- Goes forward by one undone entry. -/
def redo (t : Timeline α) : Timeline α :=
  match t.future with
  | [] => t
  | entry :: future => { t with past := t.present :: t.past, present := entry, future := future }

def reset (t : Timeline α) (entry : α) : Timeline α :=
  { t with past := [], present := entry, future := [] }

/-! ## Undo and redo move over the same entries -/

theorem entries_undo (t : Timeline α) : t.undo.entries = t.entries := by
  unfold undo
  split
  · rfl
  · rename_i h
    simp [entries, h]

theorem entries_redo (t : Timeline α) : t.redo.entries = t.entries := by
  unfold redo
  split
  · rfl
  · rename_i h
    simp [entries, h]

theorem length_entries (t : Timeline α) : t.entries.length = t.length := by
  simp [entries, length]
  omega

theorem limit_undo (t : Timeline α) : t.undo.limit = t.limit := by
  unfold undo
  split <;> rfl

theorem limit_redo (t : Timeline α) : t.redo.limit = t.limit := by
  unfold redo
  split <;> rfl

/-! ## Undo and redo are inverse -/

theorem cursor_undo (t : Timeline α) : t.undo.cursor = t.cursor - 1 := by
  unfold undo
  split
  · rename_i h
    simp [cursor, h]
  · rename_i h
    simp [cursor, h]

theorem redo_undo {t : Timeline α} (h : t.canUndo = true) : t.undo.redo = t := by
  obtain ⟨past, present, future, limit⟩ := t
  cases past with
  | nil => simp [canUndo] at h
  | cons entry past => rfl

/-- Where there is room for one more entry, a commit can be undone. -/
theorem undo_commit {t : Timeline α} (h : ∀ k, t.limit = some k → 2 ≤ k) (entry : α) :
    (t.commit entry).canUndo = true ∧ (t.commit entry).undo.present = t.present := by
  have hpast : ∃ older, (t.commit entry).past = t.present :: older := by
    show ∃ older, keep t.limit (t.present :: t.past) = t.present :: older
    cases hl : t.limit with
    | none => exact ⟨t.past, rfl⟩
    | some k =>
      obtain ⟨n, hn⟩ : ∃ n, k - 1 = n + 1 := ⟨k - 2, by have := h k hl; omega⟩
      exact ⟨t.past.take n, by rw [keep, hn, List.take_succ_cons]⟩
  obtain ⟨older, hpast⟩ := hpast
  simp [canUndo, undo, hpast]

/-! ## Which entries there are -/

theorem mem_entries_iff {t : Timeline α} {x : α} :
    x ∈ t.entries ↔ x ∈ t.past ∨ x = t.present ∨ x ∈ t.future := by
  simp [entries]

theorem present_mem_entries (t : Timeline α) : t.present ∈ t.entries :=
  mem_entries_iff.2 (Or.inr (Or.inl rfl))

theorem mem_entries_commit {t : Timeline α} {entry x : α} (h : x ∈ (t.commit entry).entries) :
    x = entry ∨ x ∈ t.entries := by
  rcases mem_entries_iff.1 h with hp | rfl | hf
  · right
    have hmem : x ∈ t.present :: t.past := by
      unfold commit keep at hp
      cases hl : t.limit with
      | none => rwa [hl] at hp
      | some n => rw [hl] at hp; exact List.mem_of_mem_take hp
    rcases List.mem_cons.1 hmem with rfl | hp
    · exact t.present_mem_entries
    · exact mem_entries_iff.2 (Or.inl hp)
  · exact Or.inl rfl
  · exact absurd hf (by simp [commit])

end Timeline

end PageBuilder
