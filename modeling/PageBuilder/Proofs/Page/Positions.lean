import Mathlib.Data.List.InsertIdx
import Mathlib.Data.List.Nodup
import PageBuilder.Page.Basic
import PageBuilder.Proofs.Maps

/-!
# Positions of children and of elements

`insertAt` says how an id gets into a list of children; `PutAt` says what the list is then, in
terms of what stands before and after the id.  Taking the id out again gives the old list back, and
so does putting it back where it was taken out.  The map of a page has an order of its own, that in
which its elements were first stored: two pages are equal if they hold the same elements in that
order (`eq_of_keys`).
-/

namespace PageBuilder.Page

variable {α : Type} {index : Option Int} {x : α} {xs ys : List α}

/-- `ys` is `xs` with an item put in: at the end when no position is asked for, else at the position
nearest to the one asked for. -/
def PutAt (index : Option Int) (x : α) (xs ys : List α) : Prop :=
  ∃ k : Nat, ys = xs.take k ++ x :: xs.drop k ∧
    (k : Int) = index.elim (xs.length : Int) fun i => min (max i 0) xs.length

theorem coe_clamp (index : Option Int) (length : Nat) :
    (clamp index length : Int) = index.elim (length : Int) fun i => min (max i 0) length := by
  cases index with
  | none => rfl
  | some i =>
    simp only [clamp, Option.elim_some]
    omega

theorem insertIdx_eq_take_drop {k : Nat} (hk : k ≤ xs.length) :
    xs.insertIdx k x = xs.take k ++ x :: xs.drop k := by
  induction xs generalizing k with
  | nil =>
    obtain rfl : k = 0 := by simpa using hk
    rfl
  | cons y rest ih =>
    cases k with
    | zero => rfl
    | succ k => simp [ih (Nat.le_of_succ_le_succ hk)]

theorem putAt_insertAt (index : Option Int) (x : α) (xs : List α) :
    PutAt index x xs (insertAt index x xs) :=
  ⟨clamp index xs.length, insertIdx_eq_take_drop (clamp_le index xs.length),
    coe_clamp index xs.length⟩

section Erase

variable [DecidableEq α]

/-- Taking out what has been put in. -/
theorem PutAt.erase (h : PutAt index x xs ys) (hx : x ∉ xs) : ys.erase x = xs := by
  obtain ⟨k, rfl, -⟩ := h
  rw [List.erase_append_right _ fun hm => hx (List.mem_of_mem_take hm), List.erase_cons_head,
    List.take_append_drop]

theorem erase_insertAt (hx : x ∉ xs) : (insertAt index x xs).erase x = xs :=
  (putAt_insertAt index x xs).erase hx

/-- Putting an item back where it has been taken out. -/
theorem insertAt_erase {left right : List α} (hx : x ∉ left) :
    insertAt (some left.length) x ((left ++ x :: right).erase x) = left ++ x :: right := by
  have hclamp : clamp (some left.length) (left ++ right).length = left.length := by
    simp only [clamp, List.length_append]
    omega
  rw [List.erase_append_right _ hx, List.erase_cons_head, insertAt, hclamp,
    insertIdx_eq_take_drop (by simp), List.take_left, List.drop_left]

end Erase

/-! ## The order of the elements -/

variable {page other : Page}

theorem keys_modify (page : Page) (id : String) (f : Element → Element) :
    (page.modify id f).elements.keys = page.elements.keys :=
  OrderedMap.keys_mapValues ..

theorem keys_put {e : Element} (h : page.get? e.id = none) :
    (page.put e).elements.keys = page.elements.keys ++ [e.id] := by
  rw [put, OrderedMap.keys_insert, if_neg]
  rw [OrderedMap.mem_keys_iff]
  rintro ⟨f, hf⟩
  exact absurd (h.symm.trans hf) (by simp)

theorem keys_delete (page : Page) (id : String) :
    (page.delete id).elements.keys = page.elements.keys.filter (· ≠ id) := by
  simp only [delete, OrderedMap.keys, OrderedMap.erase, List.filter_map]
  rfl

theorem eq_of_keys (hroot : page.root = other.root)
    (hkeys : page.elements.keys = other.elements.keys) (hget : ∀ x, page.get? x = other.get? x) :
    page = other := by
  have helements : page.elements = other.elements := OrderedMap.eq_of_keys hkeys hget
  cases page
  cases other
  cases hroot
  cases helements
  rfl

end PageBuilder.Page
