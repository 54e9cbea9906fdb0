import PageBuilder.Proofs.Markup.LookUp
import PageBuilder.Proofs.Page.Context
import PageBuilder.Proofs.Page.Survey

/-!
# Document order and the way up

A page is read downwards by lists of children and upwards by back references, and the two are
written apart.  On a tree they agree (`readings_agree`).  Downwards everything is a matter of the
outline: the walk from an element is the preorder of what stands in the hole of a context, so it is
a part of the walk from the root.  Upwards the depth carries the induction: each step takes one off
it, so the way ends at the root and meets nothing twice.
-/

namespace PageBuilder

namespace Outline

theorem preorders_eq_flatten (os : List Outline) : preorders os = (os.map preorder).flatten := by
  induction os with
  | nil => rfl
  | cons o rest ih => rw [preorders, ih, List.map_cons, List.flatten_cons]

end Outline

namespace Page

open Outline Results

variable {page : Page}

/-! ## The way down -/

/-- The walk from an element is made of those from its children. -/
theorem Linked.traverse_node (h : page.Linked) (hk : page.Keyed) {e : Element}
    {below : List Outline} (hd : (Outline.node e below).DrawnFrom page) :
    page.traverse (some e.id) = .ok (e :: (below.map preorder).flatten) ∧
      List.Forall₂ (fun child part => page.traverse (some child) = .ok part) e.children
        (below.map preorder) := by
  refine ⟨?_, ?_⟩
  · rw [← preorders_eq_flatten]
    exact h.traverse_of_drawnFrom hk hd
  · simp only [DrawnFrom] at hd
    obtain ⟨-, hc, hall⟩ := hd
    rw [hc, List.forall₂_map_left_iff, List.forall₂_map_right_iff, List.forall₂_same]
    exact fun o ho => h.traverse_of_drawnFrom hk (allDrawnFrom_iff.1 hall o ho)

theorem traverse_none {root : String} (hroot : page.root = some root) :
    page.traverse none = page.traverse (some root) := by
  rw [traverse, traverse, hroot]
  rfl

/-- From the root every element is met once. -/
theorem Linked.exists_walk (h : page.Linked) (hk : page.Keyed) :
    ∃ es, page.traverse none = .ok es ∧ es.Perm page.elements.values ∧
      ∀ {c o}, page.DrawnAround c o → es = c.ahead ++ o.preorder ++ c.behind := by
  cases hroot : page.root with
  | none =>
    have hempty := isEmpty_elements_iff.2 (h.isTree.root_eq_none_iff.1 hroot)
    refine ⟨[], by rw [traverse, hroot]; rfl, ?_, ?_⟩
    · rw [OrderedMap.values, List.isEmpty_iff.1 hempty]
      exact .nil
    · intro c o haround
      cases hroot.symm.trans haround.root
  | some root =>
    obtain ⟨o, hd, rfl, -⟩ := Markup.exists_outline_of_root h hk hroot
    refine ⟨o.preorder, ?_, perm_preorder h hk hd hroot, ?_⟩
    · rw [traverse_none hroot, h.traverse_of_drawnFrom hk hd]
    · intro c p haround
      have hid : o.top.id = (c.plug p).top.id :=
        Option.some.inj (hroot.symm.trans haround.root)
      rw [eq_of_drawnFrom hd haround.drawn hid, c.preorder_plug]

/-! ## The way up -/

theorem ancestors_of_not_stored {id : String} (h : page.get? id = none) :
    page.ancestors id = .ok [] := by
  simp [ancestors, generations, ancestorsWithin, h]

/-- From an element of depth `d` the way up has `d` steps, of which the last one leads to the
root. -/
theorem Linked.ancestorsWithin_chain (h : page.Linked) {d n : Nat} {id : String}
    (hd : page.AtDepth d id) (hn : d < n) :
    ∃ above, page.ancestorsWithin n id = .ok above ∧ above.length = d ∧
      (id :: above).Nodup ∧ (id :: above).getLast? = page.root := by
  induction d generalizing n id with
  | zero =>
    obtain ⟨n, rfl⟩ : ∃ k, n = k + 1 := ⟨n - 1, by omega⟩
    obtain ⟨e, he, hnone⟩ := h.root_stored hd
    have hroot : page.root = some id := hd
    exact ⟨[], by simp [ancestorsWithin, he, hnone], rfl, by simp, by simp [hroot]⟩
  | succ d ih =>
    obtain ⟨n, rfl⟩ : ∃ k, n = k + 1 := ⟨n - 1, by omega⟩
    obtain ⟨met, hmet, hmem⟩ := h.ancestorsWithin_eq hd hn
    obtain ⟨e, parent, he, hp, hdp⟩ := hd
    obtain ⟨above, habove, hlength, hnodup, hlast⟩ := ih hdp (by omega : d < n)
    have hstep : page.ancestorsWithin (n + 1) id = .ok (parent :: above) := by
      simp [ancestorsWithin, he, hp, habove]
    -- What is met on the way up lies above the element, so the element is not among it.
    cases hmet.symm.trans hstep
    have hnew : id ∉ parent :: above := fun hm => ((hmem id).1 hm).1 rfl
    exact ⟨parent :: above, hstep, by simp [hlength], List.nodup_cons.2 ⟨hnew, hnodup⟩,
      by rw [List.getLast?_cons_cons, hlast]⟩

theorem Linked.ancestors_chain (h : page.Linked) {d : Nat} {id : String}
    (hd : page.AtDepth d id) :
    ∃ above, page.ancestors id = .ok above ∧ above.length = d ∧ (id :: above).Nodup ∧
      (id :: above).getLast? = page.root := by
  have := h.atDepth_lt_size hd
  exact h.ancestorsWithin_chain hd (by simp only [generations]; omega)

theorem Linked.depth_eq (h : page.Linked) {d : Nat} {id : String} (hd : page.AtDepth d id) :
    page.depth id = .ok d := by
  obtain ⟨above, habove, hlength, -⟩ := h.ancestors_chain hd
  rw [depth, habove, map_ok, hlength]

theorem parentOf_eq {id parent : String} {e host : Element} (he : page.get? id = some e)
    (hp : e.parent = some parent) (hhost : page.get? parent = some host) :
    page.parentOf id = .ok (some host) := by
  simp [parentOf, require, fetch, he, hp, hhost]

/-- The way up ends for every id, and meets nothing twice. -/
theorem Linked.exists_ancestors (h : page.Linked) (id : String) :
    ∃ above, page.ancestors id = .ok above ∧ above.Nodup := by
  cases he : page.get? id with
  | none => exact ⟨[], ancestors_of_not_stored he, List.nodup_nil⟩
  | some e =>
    obtain ⟨d, hd⟩ := h.deep he
    obtain ⟨above, habove, -, hnodup, -⟩ := h.ancestors_chain hd
    exact ⟨above, habove, (List.nodup_cons.1 hnodup).2⟩

/-- One element lies below another one exactly when that one lies above it. -/
theorem Linked.mem_descendants_iff (h : page.Linked) (hk : page.Keyed) {a : String} {e : Element}
    (ha : page.get? a = some e) (b : String) :
    ∃ below above, page.descendants a = .ok below ∧ page.ancestors b = .ok above ∧
      (b ∈ below ↔ a ∈ above) := by
  obtain ⟨below, hbelow, hnodup, hreached⟩ := h.descendants_eq hk ha
  have hmem : b ∈ below ↔ b ≠ a ∧ page.Reaches a b := by
    rw [← hreached, List.mem_cons]
    constructor
    · intro hm
      exact ⟨fun heq => (List.nodup_cons.1 hnodup).1 (heq ▸ hm), Or.inr hm⟩
    · rintro ⟨hne, heq | hm⟩
      · exact absurd heq hne
      · exact hm
  cases hb : page.get? b with
  | none =>
    refine ⟨below, [], hbelow, ancestors_of_not_stored hb, iff_of_false ?_ (by simp)⟩
    intro hm
    obtain ⟨f, hf⟩ := h.stored_of_reaches (hmem.1 hm).2 ⟨e, ha⟩
    cases hb.symm.trans hf
  | some f =>
    obtain ⟨above, habove, hall⟩ := h.ancestors_eq hb
    refine ⟨below, above, hbelow, habove, ?_⟩
    rw [hmem, hall]
    exact and_congr_left fun _ => ne_comm

/-! ## Together -/

/-- What the ways of reading a page give, if `es` are its elements in document order. -/
structure Readings (page : Page) (es : List Element) : Prop where
  traverse : page.traverse none = .ok es
  once : es.Perm page.elements.values
  /-- The order is that of the walk from the root. -/
  from_root : ∀ {root}, page.root = some root → page.traverse (some root) = .ok es
  /-- The walk from an element is the element and then the walks from its children in their order,
  and it is one part of the whole. -/
  from_element : ∀ {a e}, page.get? a = some e → ∃ parts left right,
    page.traverse (some a) = .ok (e :: parts.flatten) ∧
      List.Forall₂ (fun child part => page.traverse (some child) = .ok part) e.children parts ∧
      es = left ++ (e :: parts.flatten) ++ right
  below_iff_above : ∀ {a e}, page.get? a = some e → ∀ b, ∃ below above,
    page.descendants a = .ok below ∧ page.ancestors b = .ok above ∧ (b ∈ below ↔ a ∈ above)
  above_nodup : ∀ b, ∃ above, page.ancestors b = .ok above ∧ above.Nodup
  above_ends : ∀ {b e}, page.get? b = some e → page.root ≠ some b → ∃ above root,
    page.ancestors b = .ok above ∧ page.root = some root ∧ above.getLast? = some root
  depth_root : ∀ {root}, page.root = some root → page.depth root = .ok 0
  depth_child : ∀ {b e}, page.get? b = some e → page.root ≠ some b → ∃ parent d,
    page.parentOf b = .ok (some parent) ∧ page.depth parent.id = .ok d ∧ page.depth b = .ok (d + 1)
  /-- Kinds are looked up in that order. -/
  looked_up : ∀ catalog, Markup.components catalog page = es.foldlM (Markup.lookUp catalog) .empty
  /-- If all are known, they are listed as they are first met. -/
  kinds : ∀ {catalog : Catalog}, (∀ e ∈ es, catalog.contains e.kind = true) →
    ∃ known, Markup.components catalog page = .ok known ∧
      known.keys = (es.map Element.kind).eraseDups
  /-- Else the first element of an unknown kind ends the look-up. -/
  unknown : ∀ {catalog : Catalog} {before e after}, es = before ++ e :: after →
    (∀ x ∈ before, catalog.contains x.kind = true) → catalog.contains e.kind = false →
      Markup.components catalog page = .error (.rejected (.unknownKind e.kind (some e.id)))

theorem Linked.components_eq_foldlM (h : page.Linked) (hk : page.Keyed) {es : List Element}
    (ht : page.traverse none = .ok es) (catalog : Catalog) :
    Markup.components catalog page = es.foldlM (Markup.lookUp catalog) .empty := by
  cases hroot : page.root with
  | none =>
    rw [Page.traverse, hroot] at ht
    cases ht
    rw [Markup.components, hroot]
    rfl
  | some root =>
    obtain ⟨o, hd, rfl, -⟩ := Markup.exists_outline_of_root h hk hroot
    rw [traverse_none hroot, h.traverse_of_drawnFrom hk hd] at ht
    cases ht
    rw [Markup.components, hroot]
    exact Markup.componentsFrom_eq catalog h hd

/-- On a tree of elements under their own ids all ways of reading agree. -/
theorem readings_agree (hk : page.Keyed) (ht : page.IsTree) : ∃ es, page.Readings es := by
  have hl := ht.linked
  obtain ⟨es, hes, hperm, haround⟩ := hl.exists_walk hk
  have hlook := hl.components_eq_foldlM hk hes
  refine ⟨es, ?_⟩
  constructor
  case traverse => exact hes
  case once => exact hperm
  case from_root =>
    intro root hroot
    rw [← traverse_none hroot, hes]
  case from_element =>
    intro a e ha
    -- The element is singled out in the outline: what comes before it, its subtree, and what comes
    -- after.
    obtain ⟨c, below, hc⟩ := hl.exists_drawnAround hk ha
    obtain ⟨hwalk, hparts⟩ := hl.traverse_node hk hc.inner
    have hid : e.id = a := hk ha
    rw [hid] at hwalk
    refine ⟨below.map preorder, c.ahead, c.behind, hwalk, hparts, ?_⟩
    rw [haround hc, preorder, preorders_eq_flatten]
  case below_iff_above => exact fun ha b => hl.mem_descendants_iff hk ha b
  case above_nodup => exact hl.exists_ancestors
  case above_ends =>
    intro b e hb hne
    obtain ⟨d, hd⟩ := hl.deep hb
    obtain ⟨root, hroot⟩ := hd.root_eq_some
    obtain ⟨above, habove, -, -, hlast⟩ := hl.ancestors_chain hd
    cases above with
    -- Above an element that is not the root there is a parent.
    | nil => exact absurd hlast.symm hne
    | cons parent rest =>
      rw [List.getLast?_cons_cons, hroot] at hlast
      exact ⟨parent :: rest, root, habove, hroot, hlast⟩
  case depth_root =>
    intro root hroot
    exact hl.depth_eq (show page.AtDepth 0 root from hroot)
  case depth_child =>
    intro b e hb hne
    obtain ⟨d, hd⟩ := hl.deep hb
    cases d with
    | zero => exact absurd hd hne
    | succ d =>
      obtain ⟨f, parent, hf, hp, hdp⟩ := id hd
      obtain ⟨host, hhost⟩ := hl.stored_of_atDepth hdp
      have hid : host.id = parent := hk hhost
      exact ⟨host, d, parentOf_eq hf hp hhost, hid ▸ hl.depth_eq hdp, hl.depth_eq hd⟩
  case looked_up => exact hlook
  case kinds =>
    intro catalog hkinds
    obtain ⟨known, hknown, -⟩ := Markup.foldlM_lookUp hkinds .empty
    refine ⟨known, (hlook catalog).trans hknown, ?_⟩
    rw [Markup.keys_of_foldlM hkinds hknown]
    simp [OrderedMap.keys, OrderedMap.contains, OrderedMap.empty, OrderedMap.get?]
  case unknown =>
    rintro catalog before e after rfl hbefore hkind
    exact (hlook catalog).trans (Markup.foldlM_lookUp_unknown hbefore hkind)

/-- A container with a text and a container with a text, in document order. -/
theorem readings_agree_nested :
    ∃ es, nested.Readings es ∧ es.map Element.id = ["el_1", "el_2", "el_3", "el_4"] := by
  obtain ⟨es, hes⟩ := readings_agree nested_wellFormed.keyed nested_wellFormed.isTree
  have hids : (nested.traverse none).toOption.any (fun es =>
      es.map Element.id = ["el_1", "el_2", "el_3", "el_4"]) = true := by
    decide +kernel
  obtain ⟨walk, hwalk, hmap⟩ := exists_of_any hids
  cases hes.traverse.symm.trans hwalk
  exact ⟨es, hes, of_decide_eq_true hmap⟩

end Page

end PageBuilder
