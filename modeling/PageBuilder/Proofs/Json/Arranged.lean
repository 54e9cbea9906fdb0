import Mathlib.Data.List.Nodup
import PageBuilder.Json.Printer
import PageBuilder.OrderedMap

/-!
# Values with their members in order

The printer sorts the members of every object, so a text shows no other order.  `arranged` is the
value with its members sorted throughout: it prints like the value itself (`render_arranged`), and
two objects with the same members under distinct keys arrange to the same list (`byKey_perm`).
-/

namespace PageBuilder.Json

/-! ## Sorting by key -/

section ByKey

variable {α β : Type}

/-- Entries in increasing order of their keys. -/
def byKey (entries : List (String × α)) : List (String × α) :=
  entries.mergeSort fun a b => a.1 ≤ b.1

theorem byKey_perm_self (entries : List (String × α)) : (byKey entries).Perm entries :=
  List.mergeSort_perm _ _

theorem mem_byKey {entry : String × α} {entries : List (String × α)} :
    entry ∈ byKey entries ↔ entry ∈ entries :=
  List.mem_mergeSort

theorem pairwise_byKey (entries : List (String × α)) :
    (byKey entries).Pairwise fun a b => a.1 ≤ b.1 := by
  have h : (byKey entries).Pairwise fun a b => decide (a.1 ≤ b.1) = true := by
    apply List.pairwise_mergeSort
    · intro a b c hab hbc
      exact decide_eq_true (String.le_trans (of_decide_eq_true hab) (of_decide_eq_true hbc))
    · intro a b
      simpa using String.le_total a.1 b.1
  exact h.imp of_decide_eq_true

theorem nodup_keys_byKey {entries : List (String × α)} (h : (entries.map Prod.fst).Nodup) :
    ((byKey entries).map Prod.fst).Nodup :=
  ((byKey_perm_self entries).map Prod.fst).nodup_iff.2 h

theorem map_byKey (f : α → β) (entries : List (String × α)) :
    (byKey entries).map (fun e => (e.1, f e.2)) = byKey (entries.map fun e => (e.1, f e.2)) :=
  List.map_mergeSort fun _ _ _ _ => rfl

theorem byKey_byKey (entries : List (String × α)) : byKey (byKey entries) = byKey entries :=
  List.mergeSort_of_pairwise ((pairwise_byKey entries).imp decide_eq_true)

/-- Distinct keys leave one order only. -/
theorem byKey_perm {entries others : List (String × α)} (hn : (entries.map Prod.fst).Nodup)
    (h : entries.Perm others) : byKey entries = byKey others := by
  have hperm : (byKey entries).Perm (byKey others) :=
    (byKey_perm_self entries).trans (h.trans (byKey_perm_self others).symm)
  refine hperm.eq_of_pairwise ?_ (pairwise_byKey entries) (pairwise_byKey others)
  intro a b ha hb hab hba
  have hkeys : a.1 = b.1 := String.le_antisymm hab hba
  obtain ⟨k, x⟩ := a
  obtain ⟨l, y⟩ := b
  dsimp only at hkeys
  subst hkeys
  have hx := lookup_of_mem hn (mem_byKey.1 ha)
  have hy := lookup_of_mem hn (h.mem_iff.2 (mem_byKey.1 hb))
  rw [hx, Option.some.injEq] at hy
  rw [hy]

/-- A key of a sorted list has the value it had before. -/
theorem lookup_byKey {entries : List (String × α)} (hn : (entries.map Prod.fst).Nodup)
    (key : String) : (byKey entries).lookup key = entries.lookup key := by
  apply Option.ext
  intro x
  constructor
  · intro h
    exact lookup_of_mem hn (mem_byKey.1 (mem_of_lookup h))
  · intro h
    exact lookup_of_mem (nodup_keys_byKey hn) (mem_byKey.2 (mem_of_lookup h))

end ByKey

/-! ## Sorting throughout -/

mutual

/-- A value with the members of all its objects sorted. -/
def arranged : Json → Json
  | .null => .null
  | .bool b => .bool b
  | .int n => .int n
  | .float x => .float x
  | .str s => .str s
  | .array items => .array (arrangedItems items)
  | .object members => .object (byKey (arrangedMembers members))

def arrangedItems : List Json → List Json
  | [] => []
  | item :: rest => arranged item :: arrangedItems rest

def arrangedMembers : List (String × Json) → List (String × Json)
  | [] => []
  | (key, value) :: rest => (key, arranged value) :: arrangedMembers rest

end

theorem arrangedItems_eq (items : List Json) : arrangedItems items = items.map arranged := by
  induction items with
  | nil => rfl
  | cons item rest ih => rw [arrangedItems, ih, List.map_cons]

theorem arrangedMembers_eq (members : List (String × Json)) :
    arrangedMembers members = members.map fun m => (m.1, arranged m.2) := by
  induction members with
  | nil => rfl
  | cons m rest ih => rw [arrangedMembers, ih, List.map_cons]

theorem arranged_object (members : List (String × Json)) :
    arranged (.object members) = .object ((byKey members).map fun m => (m.1, arranged m.2)) := by
  rw [arranged, arrangedMembers_eq, map_byKey]

mutual

/-- No object has two members with one key. -/
def Distinct : Json → Prop
  | .array items => DistinctItems items
  | .object members => (members.map Prod.fst).Nodup ∧ DistinctMembers members
  | _ => True

def DistinctItems : List Json → Prop
  | [] => True
  | item :: rest => Distinct item ∧ DistinctItems rest

def DistinctMembers : List (String × Json) → Prop
  | [] => True
  | (_, value) :: rest => Distinct value ∧ DistinctMembers rest

end

theorem distinctItems_iff {items : List Json} :
    DistinctItems items ↔ ∀ item ∈ items, item.Distinct := by
  induction items with
  | nil => simp [DistinctItems]
  | cons item rest ih => simp [DistinctItems, ih]

theorem distinctMembers_iff {members : List (String × Json)} :
    DistinctMembers members ↔ ∀ m ∈ members, m.2.Distinct := by
  induction members with
  | nil => simp [DistinctMembers]
  | cons m rest ih => simp [DistinctMembers, ih]

/-! ## Printing -/

theorem renderItems_eq (style : Style) (depth : Nat) (items : List Json) :
    renderItems style depth items = items.map (render style depth) := by
  induction items with
  | nil => rfl
  | cons item rest ih => rw [renderItems, ih, List.map_cons]

theorem renderMembers_eq (style : Style) (depth : Nat) (members : List (String × Json)) :
    renderMembers style depth members = members.map fun m => (m.1, render style depth m.2) := by
  induction members with
  | nil => rfl
  | cons m rest ih => rw [renderMembers, ih, List.map_cons]

theorem sortMembers_eq (style : Style) (depth : Nat) (members : List (String × Json)) :
    sortMembers (renderMembers style depth members) =
      (byKey members).map fun m => (m.1, render style depth m.2) := by
  rw [renderMembers_eq, map_byKey]
  rfl

mutual

/-- The order in which members are listed does not show. -/
theorem render_arranged (style : Style) : ∀ (json : Json) (depth : Nat),
    render style depth json.arranged = render style depth json
  | .null, _ => rfl
  | .bool _, _ => rfl
  | .int _, _ => rfl
  | .float _, _ => rfl
  | .str _, _ => rfl
  | .array items, depth => by
    rw [arranged, render, render, renderItems_arranged style items]
  | .object members, depth => by
    have hmembers := renderMembers_arranged style members (depth + 1)
    rw [renderMembers_eq, renderMembers_eq] at hmembers
    rw [arranged, render, render, sortMembers_eq, sortMembers_eq, byKey_byKey, map_byKey,
      hmembers, ← map_byKey]

theorem renderItems_arranged (style : Style) : ∀ (items : List Json) (depth : Nat),
    renderItems style depth (arrangedItems items) = renderItems style depth items
  | [], _ => rfl
  | item :: rest, depth => by
    rw [arrangedItems, renderItems, renderItems, render_arranged style item,
      renderItems_arranged style rest]

theorem renderMembers_arranged (style : Style) : ∀ (members : List (String × Json)) (depth : Nat),
    renderMembers style depth (arrangedMembers members) = renderMembers style depth members
  | [], _ => rfl
  | (key, value) :: rest, depth => by
    rw [arrangedMembers, renderMembers, renderMembers, render_arranged style value,
      renderMembers_arranged style rest]

end

/-- Values that arrange alike print alike. -/
theorem render_congr (style : Style) (depth : Nat) {json other : Json}
    (h : json.arranged = other.arranged) : render style depth json = render style depth other := by
  rw [← render_arranged style json depth, h, render_arranged style other depth]

end PageBuilder.Json
