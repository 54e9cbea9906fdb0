import Mathlib.Data.List.Nodup
import Mathlib.Data.List.Perm.Subperm
import Mathlib.Logic.Relation
import PageBuilder.Page.Walk

/-!
# The links of a page

A page is a tree when its links say so: the links from elements to their children and the back
references from children to their parents.  Links go by the ids that elements are stored under;
that these are the elements' own ids is a condition apart, `Keyed`.  `IsTree` is the statement in
full, as a reader would check it.  Edits change a few links at a time, so what they keep is proved
for `Linked`, which has one condition for each element and its neighbours and replaces "reached
from the root" by a depth.  `isTree_iff_linked` says that both are the same.

The depth is what makes the back references well founded: a parent is one step nearer to the root
than its children, and no element is as deep as there are elements.
-/

namespace PageBuilder.Page

variable {page : Page}

/-! ## What the operations on a page do to its elements -/

theorem contains_iff_get? {id : String} :
    page.contains id = true ↔ ∃ e, page.get? id = some e := by
  rw [contains, OrderedMap.contains, Option.isSome_iff_exists]
  rfl

theorem get?_of_not_contains {id : String} (h : page.contains id = false) :
    page.get? id = none := by
  cases he : page.get? id with
  | none => rfl
  | some e =>
    rw [contains_iff_get?.2 ⟨e, he⟩] at h
    exact absurd h (by simp)

theorem mem_keys_iff_get? {id : String} :
    id ∈ page.elements.keys ↔ ∃ e, page.get? id = some e :=
  page.elements.mem_keys_iff id

theorem get?_modify (page : Page) (id x : String) (f : Element → Element) :
    (page.modify id f).get? x = if x = id then (page.get? x).map f else page.get? x :=
  page.elements.get?_modify id x f

theorem get?_addChild (page : Page) (parent child x : String) (index : Option Int) :
    (page.addChild parent index child).get? x =
      if x = parent then
        (page.get? x).map fun e => { e with children := insertAt index child e.children }
      else page.get? x :=
  get?_modify ..

theorem get?_dropChild (page : Page) (parent child x : String) :
    (page.dropChild parent child).get? x =
      if x = parent then (page.get? x).map fun e => { e with children := e.children.erase child }
      else page.get? x :=
  get?_modify ..

theorem get?_delete (page : Page) (id x : String) :
    (page.delete id).get? x = if x = id then none else page.get? x :=
  page.elements.get?_erase id x

@[simp] theorem root_modify (page : Page) (id : String) (f : Element → Element) :
    (page.modify id f).root = page.root := rfl

@[simp] theorem root_addChild (page : Page) (parent child : String) (index : Option Int) :
    (page.addChild parent index child).root = page.root := rfl

@[simp] theorem root_dropChild (page : Page) (parent child : String) :
    (page.dropChild parent child).root = page.root := rfl

@[simp] theorem root_delete (page : Page) (id : String) : (page.delete id).root = page.root := rfl

/-! ## Links -/

/-- An element lists another one as a child. -/
def Lists (page : Page) (parent child : String) : Prop :=
  ∃ e, page.get? parent = some e ∧ child ∈ e.children

/-- An element is another one or lies somewhere below it. -/
def Reaches (page : Page) : String → String → Prop :=
  Relation.ReflTransGen page.Lists

/-- The number of steps from an element up to the root, by the back references. -/
def AtDepth (page : Page) : Nat → String → Prop
  | 0, id => page.root = some id
  | d + 1, id => ∃ e parent, page.get? id = some e ∧ e.parent = some parent ∧ page.AtDepth d parent

/-- Every element is stored under its own id. -/
def Keyed (page : Page) : Prop :=
  ∀ {id e}, page.get? id = some e → e.id = id

/-- The elements of a page form one tree. -/
structure IsTree (page : Page) : Prop where
  /-- There is no root exactly when there are no elements. -/
  root_eq_none_iff : page.root = none ↔ ∀ id, page.get? id = none
  /-- The root is an element without a parent. -/
  root_stored : ∀ {root}, page.root = some root → ∃ e, page.get? root = some e ∧ e.parent = none
  /-- Every element but the root is listed exactly once, by its parent and by no other. -/
  listed_once : ∀ {id e}, page.get? id = some e → page.root ≠ some id →
    ∃ parent host, e.parent = some parent ∧ page.get? parent = some host ∧
      host.children.count id = 1 ∧ ∀ other, page.Lists other id → other = parent
  /-- Every child listed is an element, and points back. -/
  child_stored : ∀ {id child}, page.Lists id child →
    ∃ e, page.get? child = some e ∧ e.parent = some id
  /-- Every element is reached from the root. -/
  reached : ∀ {id e}, page.get? id = some e → ∃ root, page.root = some root ∧ page.Reaches root id

/-- `IsTree` in terms of single elements and their neighbours. -/
structure Linked (page : Page) : Prop where
  root_stored : ∀ {root}, page.root = some root → ∃ e, page.get? root = some e ∧ e.parent = none
  child_stored : ∀ {id e child}, page.get? id = some e → child ∈ e.children →
    ∃ c, page.get? child = some c ∧ c.parent = some id
  listed : ∀ {id e parent}, page.get? id = some e → e.parent = some parent →
    ∃ host, page.get? parent = some host ∧ id ∈ host.children
  nodup_children : ∀ {id e}, page.get? id = some e → e.children.Nodup
  deep : ∀ {id e}, page.get? id = some e → ∃ d, page.AtDepth d id

/-! ## Depth -/

theorem AtDepth.root_eq_some {d : Nat} {id : String} (h : page.AtDepth d id) :
    ∃ root, page.root = some root := by
  induction d generalizing id with
  | zero => exact ⟨id, h⟩
  | succ d ih =>
    obtain ⟨e, parent, -, -, hp⟩ := h
    exact ih hp

namespace Linked

theorem stored_of_atDepth (h : page.Linked) {d : Nat} {id : String} (hd : page.AtDepth d id) :
    ∃ e, page.get? id = some e := by
  cases d with
  | zero =>
    obtain ⟨e, he, -⟩ := h.root_stored hd
    exact ⟨e, he⟩
  | succ d =>
    obtain ⟨e, parent, he, -⟩ := hd
    exact ⟨e, he⟩

theorem atDepth_unique (h : page.Linked) {d d' : Nat} {id : String} (hd : page.AtDepth d id)
    (hd' : page.AtDepth d' id) : d = d' := by
  induction d generalizing d' id with
  | zero =>
    obtain ⟨e, he, hn⟩ := h.root_stored hd
    cases d' with
    | zero => rfl
    | succ d' =>
      obtain ⟨e', parent, he', hp, -⟩ := hd'
      cases he.symm.trans he'
      exact absurd (hn.symm.trans hp) (by simp)
  | succ d ih =>
    obtain ⟨e, parent, he, hp, hd⟩ := hd
    cases d' with
    | zero =>
      obtain ⟨e', he', hn⟩ := h.root_stored hd'
      cases he.symm.trans he'
      exact absurd (hn.symm.trans hp) (by simp)
    | succ d' =>
      obtain ⟨e', parent', he', hp', hd'⟩ := hd'
      cases he.symm.trans he'
      cases hp.symm.trans hp'
      rw [ih hd hd']

/-- An element without a parent is the root. -/
theorem root_of_parent_none (h : page.Linked) {id : String} {e : Element}
    (he : page.get? id = some e) (hn : e.parent = none) : page.root = some id := by
  obtain ⟨d, hd⟩ := h.deep he
  cases d with
  | zero => exact hd
  | succ d =>
    obtain ⟨e', parent, he', hp, -⟩ := hd
    cases he.symm.trans he'
    exact absurd (hn.symm.trans hp) (by simp)

/-- The way up from an element of depth `d`: `d + 1` elements, none met twice. -/
theorem exists_chain (h : page.Linked) {d : Nat} {id : String} (hd : page.AtDepth d id) :
    ∃ chain : List String, chain.length = d + 1 ∧ chain.Nodup ∧
      ∀ x ∈ chain, (∃ i, i ≤ d ∧ page.AtDepth i x) ∧ x ∈ page.elements.keys := by
  induction d generalizing id with
  | zero =>
    refine ⟨[id], rfl, by simp, ?_⟩
    intro x hx
    rw [List.mem_singleton.1 hx]
    exact ⟨⟨0, Nat.le_refl 0, hd⟩, mem_keys_iff_get?.2 (h.stored_of_atDepth hd)⟩
  | succ d ih =>
    obtain ⟨e, parent, he, hp, hd'⟩ := hd
    obtain ⟨chain, hlen, hnodup, hall⟩ := ih hd'
    -- All of the chain is less deep.
    have hnew : id ∉ chain := by
      intro hm
      obtain ⟨⟨i, hi, hid⟩, -⟩ := hall id hm
      have := h.atDepth_unique hid
        (show page.AtDepth (d + 1) id from ⟨e, parent, he, hp, hd'⟩)
      omega
    refine ⟨id :: chain, by simp [hlen], List.nodup_cons.2 ⟨hnew, hnodup⟩, ?_⟩
    intro x hx
    rcases List.mem_cons.1 hx with rfl | hm
    · exact ⟨⟨d + 1, Nat.le_refl _, e, parent, he, hp, hd'⟩, mem_keys_iff_get?.2 ⟨e, he⟩⟩
    · obtain ⟨⟨i, hi, hid⟩, hk⟩ := hall x hm
      exact ⟨⟨i, by omega, hid⟩, hk⟩

/-- No element is as deep as there are elements. -/
theorem atDepth_lt_size (h : page.Linked) {d : Nat} {id : String} (hd : page.AtDepth d id) :
    d < page.size := by
  obtain ⟨chain, hlen, hnodup, hall⟩ := h.exists_chain hd
  have hle : chain.length ≤ page.elements.keys.length :=
    (hnodup.subperm fun x hx => (hall x hx).2).length_le
  have hsize : page.elements.keys.length = page.size := List.length_map ..
  omega

/-! ## Reaching -/

theorem atDepth_of_lists (h : page.Linked) {d : Nat} {parent child : String}
    (hl : page.Lists parent child) (hd : page.AtDepth d parent) : page.AtDepth (d + 1) child := by
  obtain ⟨e, he, hm⟩ := hl
  obtain ⟨c, hc, hp⟩ := h.child_stored he hm
  exact ⟨c, parent, hc, hp, hd⟩

theorem lists_of_parent (h : page.Linked) {id parent : String} {e : Element}
    (he : page.get? id = some e) (hp : e.parent = some parent) : page.Lists parent id :=
  h.listed he hp

theorem parent_of_lists (h : page.Linked) {parent child : String} {e : Element}
    (hl : page.Lists parent child) (he : page.get? child = some e) : e.parent = some parent := by
  obtain ⟨host, hhost, hm⟩ := hl
  obtain ⟨c, hc, hp⟩ := h.child_stored hhost hm
  cases he.symm.trans hc
  exact hp

theorem lists_unique (h : page.Linked) {a b child : String} (ha : page.Lists a child)
    (hb : page.Lists b child) : a = b := by
  obtain ⟨e, he, hm⟩ := ha
  obtain ⟨c, hc, hp⟩ := h.child_stored he hm
  exact Option.some.inj (hp.symm.trans (h.parent_of_lists hb hc))

/-- Below an element the depth grows, and stays the same only at the element itself. -/
theorem atDepth_of_reaches (h : page.Linked) {d : Nat} {a b : String} (hr : page.Reaches a b)
    (hd : page.AtDepth d a) : ∃ k, page.AtDepth (d + k) b ∧ (k = 0 → a = b) := by
  induction hr with
  | refl => exact ⟨0, hd, fun _ => rfl⟩
  | tail _ hl ih =>
    obtain ⟨k, hk, -⟩ := ih
    exact ⟨k + 1, h.atDepth_of_lists hl hk, by simp⟩

theorem reaches_of_atDepth (h : page.Linked) {d : Nat} {id root : String}
    (hd : page.AtDepth d id) (hr : page.root = some root) : page.Reaches root id := by
  induction d generalizing id with
  | zero =>
    cases hr.symm.trans hd
    exact .refl
  | succ d ih =>
    obtain ⟨e, parent, he, hp, hd⟩ := hd
    exact (ih hd).tail (h.lists_of_parent he hp)

theorem stored_of_reaches (h : page.Linked) {a b : String} (hr : page.Reaches a b)
    (ha : ∃ e, page.get? a = some e) : ∃ e, page.get? b = some e := by
  cases hr with
  | refl => exact ha
  | tail _ hl =>
    obtain ⟨e, he, hm⟩ := hl
    obtain ⟨c, hc, -⟩ := h.child_stored he hm
    exact ⟨c, hc⟩

/-- A parent is not reached from its children. -/
theorem not_reaches_of_lists (h : page.Linked) {a b : String} (hl : page.Lists a b) :
    ¬ page.Reaches b a := by
  intro hr
  obtain ⟨e, he, -⟩ := id hl
  obtain ⟨d, hd⟩ := h.deep he
  obtain ⟨k, hk, -⟩ := h.atDepth_of_reaches hr (h.atDepth_of_lists hl hd)
  have := h.atDepth_unique hk hd
  omega

/-- Of two elements above a third one, one lies above the other. -/
theorem reaches_total (h : page.Linked) {a b x : String} (ha : page.Reaches a x)
    (hb : page.Reaches b x) : page.Reaches a b ∨ page.Reaches b a := by
  have hu : Relator.RightUnique (Function.swap page.Lists) := fun _ _ _ => h.lists_unique
  rcases Relation.ReflTransGen.total_of_right_unique hu (Relation.reflTransGen_swap.2 ha)
    (Relation.reflTransGen_swap.2 hb) with hab | hba
  · exact Or.inr (Relation.reflTransGen_swap.1 hab)
  · exact Or.inl (Relation.reflTransGen_swap.1 hba)

/-- Children of one element have nothing below them in common. -/
theorem siblings_apart (h : page.Linked) {parent a b x : String} (ha : page.Lists parent a)
    (hb : page.Lists parent b) (hax : page.Reaches a x) (hbx : page.Reaches b x) : a = b := by
  obtain ⟨e, he, -⟩ := id ha
  obtain ⟨d, hd⟩ := h.deep he
  have hda := h.atDepth_of_lists ha hd
  have hdb := h.atDepth_of_lists hb hd
  rcases h.reaches_total hax hbx with hab | hba
  · obtain ⟨k, hk, hk0⟩ := h.atDepth_of_reaches hab hda
    exact hk0 (by have := h.atDepth_unique hk hdb; omega)
  · obtain ⟨k, hk, hk0⟩ := h.atDepth_of_reaches hba hdb
    exact (hk0 (by have := h.atDepth_unique hk hda; omega)).symm

/-- What lies above a child lies above its parent, or is the child. -/
theorem reaches_parent (h : page.Linked) {a parent child : String} (hr : page.Reaches a child)
    (hl : page.Lists parent child) : a = child ∨ page.Reaches a parent := by
  cases hr with
  | refl => exact Or.inl rfl
  | tail hr hl' =>
    cases h.lists_unique hl hl'
    exact Or.inr hr

end Linked

/-! ## The two forms agree -/

theorem linked_of_empty (hroot : page.root = none) (hnone : ∀ id, page.get? id = none) :
    page.Linked := by
  have habsurd : ∀ {id e}, page.get? id ≠ some e := fun he =>
    absurd ((hnone _).symm.trans he) (by simp)
  exact ⟨fun hr => absurd (hroot.symm.trans hr) (by simp), fun he => absurd he habsurd,
    fun he => absurd he habsurd, fun he => absurd he habsurd, fun he => absurd he habsurd⟩

theorem linked_empty : ({} : Page).Linked :=
  linked_of_empty rfl fun _ => rfl

/-- Where all is reached from a root, the back references need to be asked of children only. -/
theorem linked_of_reached {root : String} (hroot : page.root = some root)
    (hstored : ∃ e, page.get? root = some e ∧ e.parent = none)
    (hchild : ∀ {id child}, page.Lists id child →
      ∃ e, page.get? child = some e ∧ e.parent = some id)
    (hnodup : ∀ {id e}, page.get? id = some e → e.children.Nodup)
    (hreached : ∀ {id e}, page.get? id = some e → page.Reaches root id) : page.Linked where
  root_stored := by
    intro root' hr
    cases hroot.symm.trans hr
    exact hstored
  child_stored he hm := hchild ⟨_, he, hm⟩
  listed := by
    intro id e parent he hp
    cases hreached he with
    | refl =>
      obtain ⟨r, hr, hn⟩ := hstored
      cases he.symm.trans hr
      exact absurd (hn.symm.trans hp) (by simp)
    | tail _ hl =>
      obtain ⟨c, hc, hp'⟩ := hchild hl
      cases he.symm.trans hc
      cases hp.symm.trans hp'
      exact hl
  nodup_children := hnodup
  deep := by
    intro id e he
    -- The way down from the root, read backwards, is the way up.
    have hr := hreached he
    clear he
    induction hr with
    | refl => exact ⟨0, hroot⟩
    | tail _ hl ih =>
      obtain ⟨d, hd⟩ := ih
      obtain ⟨c, hc, hp⟩ := hchild hl
      exact ⟨d + 1, c, _, hc, hp, hd⟩

/-- No element lists a child twice, since the child is listed once in all. -/
theorem IsTree.nodup_children (h : page.IsTree) {id : String} {e : Element}
    (he : page.get? id = some e) : e.children.Nodup := by
  apply List.nodup_iff_count_le_one.2
  intro child
  by_cases hm : child ∈ e.children
  · obtain ⟨c, hc, hp⟩ := h.child_stored ⟨e, he, hm⟩
    -- A child has a parent and the root has none, so the child is among those listed once.
    have hroot : page.root ≠ some child := by
      intro hr
      obtain ⟨c', hc', hn⟩ := h.root_stored hr
      cases hc.symm.trans hc'
      exact absurd (hn.symm.trans hp) (by simp)
    obtain ⟨parent, host, hp', hhost, hcount, -⟩ := h.listed_once hc hroot
    cases hp.symm.trans hp'
    cases he.symm.trans hhost
    omega
  · rw [List.count_eq_zero_of_not_mem hm]
    omega

theorem IsTree.linked (h : page.IsTree) : page.Linked := by
  cases hroot : page.root with
  | none => exact linked_of_empty hroot (h.root_eq_none_iff.1 hroot)
  | some root =>
    apply linked_of_reached hroot (h.root_stored hroot) h.child_stored h.nodup_children
    intro id e he
    obtain ⟨root', hroot', hr⟩ := h.reached he
    cases hroot.symm.trans hroot'
    exact hr

/-- Links with depths make a tree in the plain sense. -/
theorem Linked.isTree (h : page.Linked) : page.IsTree where
  root_eq_none_iff := by
    constructor
    · intro hn id
      cases he : page.get? id with
      | none => rfl
      | some e =>
        obtain ⟨d, hd⟩ := h.deep he
        obtain ⟨root, hroot⟩ := hd.root_eq_some
        exact absurd (hn.symm.trans hroot) (by simp)
    · intro hall
      cases hroot : page.root with
      | none => rfl
      | some root =>
        obtain ⟨e, he, -⟩ := h.root_stored hroot
        exact absurd ((hall root).symm.trans he) (by simp)
  root_stored := h.root_stored
  listed_once := by
    intro id e he hroot
    cases hp : e.parent with
    | none => exact absurd (h.root_of_parent_none he hp) hroot
    | some parent =>
      obtain ⟨host, hhost, hm⟩ := h.listed he hp
      refine ⟨parent, host, rfl, hhost, ?_, ?_⟩
      · exact List.count_eq_one_of_mem (h.nodup_children hhost) hm
      · intro other hl
        exact h.lists_unique hl ⟨host, hhost, hm⟩
  child_stored := fun ⟨_, he, hm⟩ => h.child_stored he hm
  reached := by
    intro id e he
    -- The way up from an element ends at the root; the way down is the same one turned round.
    obtain ⟨d, hd⟩ := h.deep he
    obtain ⟨root, hroot⟩ := hd.root_eq_some
    exact ⟨root, hroot, h.reaches_of_atDepth hd hroot⟩

theorem isTree_iff_linked : page.IsTree ↔ page.Linked :=
  ⟨IsTree.linked, Linked.isTree⟩

end PageBuilder.Page
