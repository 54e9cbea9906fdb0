/-!
# Maps that remember the order of their keys

An `OrderedMap` lists its entries in the order in which the keys were first set; each key occurs
once.  Its view is `get?`: two maps with the same view hold the same content, whatever their
order (`Same`), and one small lemma per operation says what the operation does to the view.
-/

namespace PageBuilder

/-- Sets a key in a list of entries: in its old place when it is there, else at the end. -/
def setEntry {α : Type} (key : String) (value : α) : List (String × α) → List (String × α)
  | [] => [(key, value)]
  | (k, v) :: rest => if k = key then (key, value) :: rest else (k, v) :: setEntry key value rest

section Entries

variable {α β : Type}

theorem keys_setEntry (key : String) (value : α) (es : List (String × α)) :
    (setEntry key value es).map Prod.fst =
      if key ∈ es.map Prod.fst then es.map Prod.fst else es.map Prod.fst ++ [key] := by
  induction es with
  | nil => simp [setEntry]
  | cons e rest ih =>
    obtain ⟨k, v⟩ := e
    by_cases h : k = key
    · simp [setEntry, h]
    · have h' : key ≠ k := fun hk => h hk.symm
      by_cases hm : key ∈ rest.map Prod.fst <;> simp_all [setEntry]

theorem nodup_setEntry {key : String} {value : α} {es : List (String × α)}
    (h : (es.map Prod.fst).Nodup) : ((setEntry key value es).map Prod.fst).Nodup := by
  rw [keys_setEntry]
  split
  · exact h
  · rename_i hk
    refine List.nodup_append.2 ⟨h, by simp, ?_⟩
    intro a ha b hb
    simp only [List.mem_singleton] at hb
    subst hb
    exact fun hab => hk (hab ▸ ha)

theorem lookup_cons_pair (x k : String) (v : α) (es : List (String × α)) :
    ((k, v) :: es).lookup x = if x = k then some v else es.lookup x := by
  by_cases h : x = k
  · simp [h]
  · simp [List.lookup_cons, beq_eq_false_iff_ne.2 h, h]

theorem lookup_setEntry (key x : String) (value : α) (es : List (String × α)) :
    (setEntry key value es).lookup x = if x = key then some value else es.lookup x := by
  induction es with
  | nil => simp [setEntry, lookup_cons_pair]
  | cons e rest ih =>
    obtain ⟨k, v⟩ := e
    by_cases h : k = key
    · subst h
      by_cases hx : x = k <;> simp [setEntry, lookup_cons_pair, hx]
    · by_cases hx : x = k
      · subst hx; simp [setEntry, h]
      · simp [setEntry, lookup_cons_pair, hx, h, ih]

theorem lookup_filter_ne (key x : String) (es : List (String × α)) :
    (es.filter (·.1 ≠ key)).lookup x = if x = key then none else es.lookup x := by
  induction es with
  | nil => simp
  | cons e rest ih =>
    obtain ⟨k, v⟩ := e
    rw [lookup_cons_pair, List.filter_cons]
    by_cases h : k = key
    · rw [if_neg (by simp [h]), ih]
      by_cases hx : x = key
      · simp [hx]
      · rw [if_neg hx, if_neg hx, if_neg fun hk : x = k => hx (hk.trans h)]
    · rw [if_pos (by simp [h]), lookup_cons_pair, ih]
      by_cases hx : x = k
      · subst hx; simp [h]
      · simp [hx]

theorem lookup_map_snd (f : String → α → β) (x : String) (es : List (String × α)) :
    (es.map fun e => (e.1, f e.1 e.2)).lookup x = (es.lookup x).map (f x) := by
  induction es with
  | nil => simp
  | cons e rest ih =>
    obtain ⟨k, v⟩ := e
    rw [List.map_cons, lookup_cons_pair, lookup_cons_pair, ih]
    by_cases hx : x = k
    · subst hx; simp
    · simp [hx]

theorem mem_of_lookup {x : String} {a : α} {es : List (String × α)}
    (h : es.lookup x = some a) : (x, a) ∈ es := by
  induction es with
  | nil => simp at h
  | cons e rest ih =>
    obtain ⟨k, v⟩ := e
    rw [lookup_cons_pair] at h
    split at h
    · rename_i hx
      subst hx
      cases h
      exact List.mem_cons_self
    · exact List.mem_cons_of_mem _ (ih h)

theorem lookup_of_mem {x : String} {a : α} {es : List (String × α)}
    (hn : (es.map Prod.fst).Nodup) (h : (x, a) ∈ es) : es.lookup x = some a := by
  induction es with
  | nil => simp at h
  | cons e rest ih =>
    obtain ⟨k, v⟩ := e
    simp only [List.map_cons, List.nodup_cons] at hn
    rw [lookup_cons_pair]
    rcases List.mem_cons.1 h with heq | hr
    · cases heq; simp
    · have hx : x ≠ k := fun hk => hn.1 (hk ▸ List.mem_map.2 ⟨_, hr, rfl⟩)
      rw [if_neg hx]
      exact ih hn.2 hr

theorem lookup_eq_none_iff_not_mem {x : String} {es : List (String × α)} :
    es.lookup x = none ↔ x ∉ es.map Prod.fst := by
  induction es with
  | nil => simp
  | cons e rest ih =>
    obtain ⟨k, v⟩ := e
    rw [lookup_cons_pair]
    by_cases hx : x = k
    · simp [hx]
    · simp only [if_neg hx, ih, List.map_cons, List.mem_cons, not_or]
      exact ⟨fun h => ⟨hx, h⟩, fun h => h.2⟩

end Entries

/-- Entries in the order of their keys' first setting, each key once. -/
structure OrderedMap (α : Type) where
  entries : List (String × α)
  nodup_keys : (entries.map Prod.fst).Nodup
deriving DecidableEq, Repr

namespace OrderedMap

variable {α β : Type}

def empty : OrderedMap α := ⟨[], by simp⟩

instance : Inhabited (OrderedMap α) := ⟨empty⟩

def keys (m : OrderedMap α) : List String :=
  m.entries.map Prod.fst

def values (m : OrderedMap α) : List α :=
  m.entries.map Prod.snd

def size (m : OrderedMap α) : Nat :=
  m.entries.length

def isEmpty (m : OrderedMap α) : Bool :=
  m.entries.isEmpty

def get? (m : OrderedMap α) (key : String) : Option α :=
  m.entries.lookup key

def contains (m : OrderedMap α) (key : String) : Bool :=
  (m.get? key).isSome

def insert (m : OrderedMap α) (key : String) (value : α) : OrderedMap α :=
  ⟨setEntry key value m.entries, nodup_setEntry m.nodup_keys⟩

def erase (m : OrderedMap α) (key : String) : OrderedMap α :=
  ⟨m.entries.filter (·.1 ≠ key), m.nodup_keys.sublist (List.filter_sublist.map _)⟩

/-- Changes every value, the keys and their order kept. -/
def mapValues (f : String → α → β) (m : OrderedMap α) : OrderedMap β :=
  ⟨m.entries.map fun e => (e.1, f e.1 e.2), by
    have : (m.entries.map fun e => (e.1, f e.1 e.2)).map Prod.fst = m.entries.map Prod.fst := by
      simp [List.map_map, Function.comp_def]
    rw [this]
    exact m.nodup_keys⟩

/-- Changes the value of a key that is set. -/
def modify (m : OrderedMap α) (key : String) (f : α → α) : OrderedMap α :=
  m.mapValues fun k v => if k = key then f v else v

/-- The map of a list of pairs: of a repeated key the last value, in the first place. -/
def ofList (pairs : List (String × α)) : OrderedMap α :=
  pairs.foldl (fun m p => m.insert p.1 p.2) empty

/-- Two maps hold the same content, possibly in different orders. -/
def Same (m n : OrderedMap α) : Prop :=
  ∀ key, m.get? key = n.get? key

/-! ## The view of each operation -/

@[simp] theorem get?_empty (key : String) : (empty : OrderedMap α).get? key = none := rfl

theorem get?_insert (m : OrderedMap α) (key x : String) (value : α) :
    (m.insert key value).get? x = if x = key then some value else m.get? x :=
  lookup_setEntry key x value m.entries

theorem get?_erase (m : OrderedMap α) (key x : String) :
    (m.erase key).get? x = if x = key then none else m.get? x :=
  lookup_filter_ne key x m.entries

theorem get?_mapValues (f : String → α → β) (m : OrderedMap α) (x : String) :
    (m.mapValues f).get? x = (m.get? x).map (f x) :=
  lookup_map_snd f x m.entries

theorem get?_modify (m : OrderedMap α) (key x : String) (f : α → α) :
    (m.modify key f).get? x = if x = key then (m.get? x).map f else m.get? x := by
  rw [modify, get?_mapValues]
  by_cases h : x = key
  · simp [h]
  · cases m.get? x <;> simp [h]

theorem mem_entries_iff (m : OrderedMap α) (key : String) (value : α) :
    (key, value) ∈ m.entries ↔ m.get? key = some value :=
  ⟨lookup_of_mem m.nodup_keys, mem_of_lookup⟩

theorem mem_keys_iff (m : OrderedMap α) (key : String) :
    key ∈ m.keys ↔ ∃ value, m.get? key = some value := by
  refine ⟨fun h => ?_, fun ⟨value, h⟩ => ?_⟩
  · cases hg : m.get? key with
    | none => exact absurd h (lookup_eq_none_iff_not_mem.1 hg)
    | some value => exact ⟨value, rfl⟩
  · exact List.mem_map.2 ⟨_, mem_of_lookup h, rfl⟩

theorem contains_iff (m : OrderedMap α) (key : String) :
    m.contains key = true ↔ key ∈ m.keys := by
  rw [mem_keys_iff, contains, Option.isSome_iff_exists]

theorem keys_insert (m : OrderedMap α) (key : String) (value : α) :
    (m.insert key value).keys = if key ∈ m.keys then m.keys else m.keys ++ [key] :=
  keys_setEntry key value m.entries

theorem keys_mapValues (f : String → α → β) (m : OrderedMap α) :
    (m.mapValues f).keys = m.keys := by
  simp [keys, mapValues, List.map_map, Function.comp_def]

end OrderedMap

end PageBuilder
