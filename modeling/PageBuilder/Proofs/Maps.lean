import Mathlib.Data.List.Nodup
import PageBuilder.OrderedMap

/-!
# Maps made from lists of pairs, and maps of the same content

Of a repeated key the last value counts, and when no key is repeated the map is the list itself.
Maps of the same content list the same entries, possibly in different orders.
-/

namespace PageBuilder.OrderedMap

variable {α : Type}

theorem get?_foldl_insert (pairs : List (String × α)) (m : OrderedMap α) (key : String) :
    (pairs.foldl (fun m p => m.insert p.1 p.2) m).get? key =
      (pairs.reverse.lookup key).or (m.get? key) := by
  induction pairs generalizing m with
  | nil => rfl
  | cons p rest ih =>
    obtain ⟨k, v⟩ := p
    rw [List.foldl_cons, ih, List.reverse_cons, List.lookup_append, get?_insert,
      lookup_cons_pair]
    by_cases hk : key = k
    · cases rest.reverse.lookup key <;> simp [hk]
    · simp [hk]

theorem get?_ofList (pairs : List (String × α)) (key : String) :
    (ofList pairs).get? key = pairs.reverse.lookup key := by
  rw [ofList, get?_foldl_insert, get?_empty, Option.or_none]

theorem mem_of_get?_ofList {pairs : List (String × α)} {key : String} {value : α}
    (h : (ofList pairs).get? key = some value) : (key, value) ∈ pairs := by
  rw [get?_ofList] at h
  exact List.mem_reverse.1 (mem_of_lookup h)

/-- Keys that are not repeated keep their values. -/
theorem get?_ofList_iff {pairs : List (String × α)} (hn : (pairs.map Prod.fst).Nodup)
    {key : String} {value : α} : (ofList pairs).get? key = some value ↔ (key, value) ∈ pairs := by
  have hr : (pairs.reverse.map Prod.fst).Nodup := by
    rw [List.map_reverse]
    exact List.nodup_reverse.2 hn
  rw [get?_ofList, ← List.mem_reverse]
  exact ⟨mem_of_lookup, lookup_of_mem hr⟩

theorem mem_keys_ofList {pairs : List (String × α)} {key : String} :
    key ∈ (ofList pairs).keys ↔ key ∈ pairs.map Prod.fst := by
  rw [mem_keys_iff, get?_ofList, ← Option.isSome_iff_exists, ← Option.ne_none_iff_isSome, ne_eq,
    lookup_eq_none_iff_not_mem, not_not, List.map_reverse, List.mem_reverse]

theorem get?_ofList_of_nodup {pairs : List (String × α)} (hn : (pairs.map Prod.fst).Nodup)
    (key : String) : (ofList pairs).get? key = pairs.lookup key := by
  apply Option.ext
  intro value
  rw [get?_ofList_iff hn]
  exact ⟨lookup_of_mem hn, mem_of_lookup⟩

/-! ## The same content -/

variable {m n o : OrderedMap α}

theorem Same.refl (m : OrderedMap α) : m.Same m := fun _ => rfl

theorem Same.symm (h : m.Same n) : n.Same m := fun key => (h key).symm

theorem Same.trans (h : m.Same n) (h' : n.Same o) : m.Same o := fun key => (h key).trans (h' key)

theorem Same.perm (h : m.Same n) : m.entries.Perm n.entries := by
  apply (List.perm_ext_iff_of_nodup m.nodup_keys.of_map n.nodup_keys.of_map).2
  rintro ⟨key, value⟩
  rw [mem_entries_iff, mem_entries_iff, h key]

/-- A map is its keys in their order and what it holds under them. -/
theorem eq_of_keys (hkeys : m.keys = n.keys) (h : m.Same n) : m = n := by
  have hentries : m.entries = n.entries := by
    have hlength : m.entries.length = n.entries.length := by
      simpa [keys] using congrArg List.length hkeys
    apply List.ext_getElem hlength
    intro i hm hn
    have hkey : m.entries[i].1 = n.entries[i].1 := by
      simpa [keys] using List.getElem_of_eq hkeys (by simpa [keys] using hm)
    have hvalue : some m.entries[i].2 = some n.entries[i].2 := calc
      _ = m.get? m.entries[i].1 := ((m.mem_entries_iff _ _).1 (List.getElem_mem hm)).symm
      _ = n.get? n.entries[i].1 := by rw [h, hkey]
      _ = some n.entries[i].2 := (n.mem_entries_iff _ _).1 (List.getElem_mem hn)
    exact Prod.ext hkey (Option.some.inj hvalue)
  cases m
  cases n
  cases hentries
  rfl

/-- Which of two keys is set first does not matter. -/
theorem ofList_swap {k l : String} (h : k ≠ l) (v w : α) :
    (ofList [(k, v), (l, w)]).Same (ofList [(l, w), (k, v)]) := by
  intro key
  simp only [ofList, List.foldl_cons, List.foldl_nil, get?_insert]
  by_cases hk : key = k
  · rw [if_neg fun hl : key = l => h (hk.symm.trans hl), if_pos hk, if_pos hk]
  · rw [if_neg hk, if_neg hk]

end PageBuilder.OrderedMap
