import PageBuilder.Proofs.Page.Links

/-!
# Outlines

An outline is a subtree of a page written down as a tree: an element and, in order, the outlines
of its children.  On a page that is a tree every element has one (`Linked.exists_outline`), and
walks over the page are recursions over outlines: a walk visits the elements of an outline in
preorder (`walk_outlines`), so it ends, needs no more generations than there are elements, and
meets every element below its start exactly once.

The way up is treated here too: `Linked.ancestors_eq` says that it ends and what it meets.
-/

namespace PageBuilder

/-- An element with what hangs below it. -/
inductive Outline
  | node (e : Element) (below : List Outline)

namespace Outline

/-- The element all others hang below. -/
def top : Outline → Element
  | .node e _ => e

@[simp] theorem top_node (e : Element) (below : List Outline) : (node e below).top = e := rfl

mutual

/-- The elements of an outline, each before those below it. -/
def preorder : Outline → List Element
  | .node e below => e :: preorders below

/-- The elements of outlines one after the other. -/
def preorders : List Outline → List Element
  | [] => []
  | o :: rest => o.preorder ++ preorders rest

end

mutual

/-- The number of generations below the top. -/
def height : Outline → Nat
  | .node _ below => heights below

/-- The number of generations that outlines make below one parent. -/
def heights : List Outline → Nat
  | [] => 0
  | o :: rest => max (o.height + 1) (heights rest)

end

mutual

/-- An outline shows what a page holds. -/
def DrawnFrom (page : Page) : Outline → Prop
  | .node e below =>
    page.get? e.id = some e ∧ e.children = below.map (fun o => o.top.id) ∧ AllDrawnFrom page below

/-- Outlines all show what a page holds. -/
def AllDrawnFrom (page : Page) : List Outline → Prop
  | [] => True
  | o :: rest => o.DrawnFrom page ∧ AllDrawnFrom page rest

end

theorem allDrawnFrom_iff {page : Page} {os : List Outline} :
    AllDrawnFrom page os ↔ ∀ o ∈ os, o.DrawnFrom page := by
  induction os with
  | nil => simp [AllDrawnFrom]
  | cons o rest ih => simp [AllDrawnFrom, ih]

theorem heights_le_iff {os : List Outline} {n : Nat} :
    heights os ≤ n ↔ ∀ o ∈ os, o.height + 1 ≤ n := by
  induction os with
  | nil => simp [heights]
  | cons o rest ih => rw [heights, Nat.max_le, ih, List.forall_mem_cons]

theorem preorders_append (os ps : List Outline) :
    preorders (os ++ ps) = preorders os ++ preorders ps := by
  induction os with
  | nil => rfl
  | cons o rest ih => simp [preorders, ih]

theorem mem_preorders_iff {x : Element} {os : List Outline} :
    x ∈ preorders os ↔ ∃ o ∈ os, x ∈ o.preorder := by
  induction os with
  | nil => simp [preorders]
  | cons o rest ih => simp [preorders, ih]

theorem top_mem_preorder (o : Outline) : o.top ∈ o.preorder := by
  cases o with
  | node e below => simp [top, preorder]

theorem DrawnFrom.get?_top {page : Page} {o : Outline} (h : o.DrawnFrom page) :
    page.get? o.top.id = some o.top := by
  cases o with
  | node e below => exact h.1

/-! ## What an outline holds -/

section Content

variable {page : Page}

mutual

theorem drawn_of_mem_preorder (h : page.Linked) : ∀ {o : Outline} {x : Element},
    o.DrawnFrom page → x ∈ o.preorder →
      page.get? x.id = some x ∧ page.Reaches o.top.id x.id
  | .node e below, x, hd, hx => by
    simp only [DrawnFrom] at hd
    obtain ⟨he, hc, hall⟩ := hd
    rcases List.mem_cons.1 hx with rfl | hx
    · exact ⟨he, .refl⟩
    · obtain ⟨o, ho, hget, hr⟩ := drawn_of_mem_preorders h hall hx
      have hl : page.Lists e.id o.top.id :=
        ⟨e, he, hc ▸ List.mem_map.2 ⟨o, ho, rfl⟩⟩
      exact ⟨hget, Relation.ReflTransGen.head hl hr⟩

theorem drawn_of_mem_preorders (h : page.Linked) : ∀ {os : List Outline} {x : Element},
    AllDrawnFrom page os → x ∈ preorders os →
      ∃ o ∈ os, page.get? x.id = some x ∧ page.Reaches o.top.id x.id
  | o :: rest, x, hd, hx => by
    simp only [AllDrawnFrom] at hd
    rcases List.mem_append.1 hx with hx | hx
    · exact ⟨o, List.mem_cons_self, drawn_of_mem_preorder h hd.1 hx⟩
    · obtain ⟨p, hp, hr⟩ := drawn_of_mem_preorders h hd.2 hx
      exact ⟨p, List.mem_cons_of_mem _ hp, hr⟩

end

mutual

/-- The children of every element of an outline are in the outline. -/
theorem exists_mem_preorder_of_lists : ∀ {o : Outline} {x : Element} {child : String},
    o.DrawnFrom page → x ∈ o.preorder → child ∈ x.children → ∃ y ∈ o.preorder, y.id = child
  | .node e below, x, child, hd, hx, hm => by
    simp only [DrawnFrom] at hd
    obtain ⟨he, hc, hall⟩ := hd
    rcases List.mem_cons.1 hx with rfl | hx
    · rw [hc] at hm
      obtain ⟨o, ho, rfl⟩ := List.mem_map.1 hm
      exact ⟨o.top, List.mem_cons_of_mem _ (mem_preorders_iff.2 ⟨o, ho, o.top_mem_preorder⟩), rfl⟩
    · obtain ⟨y, hy, hid⟩ := exists_mem_preorders_of_lists hall hx hm
      exact ⟨y, List.mem_cons_of_mem _ hy, hid⟩

theorem exists_mem_preorders_of_lists : ∀ {os : List Outline} {x : Element} {child : String},
    AllDrawnFrom page os → x ∈ preorders os → child ∈ x.children →
      ∃ y ∈ preorders os, y.id = child
  | o :: rest, x, child, hd, hx, hm => by
    simp only [AllDrawnFrom] at hd
    rcases List.mem_append.1 hx with hx | hx
    · obtain ⟨y, hy, hid⟩ := exists_mem_preorder_of_lists hd.1 hx hm
      exact ⟨y, List.mem_append_left _ hy, hid⟩
    · obtain ⟨y, hy, hid⟩ := exists_mem_preorders_of_lists hd.2 hx hm
      exact ⟨y, List.mem_append_right _ hy, hid⟩

end

/-- An outline holds exactly what its top reaches. -/
theorem mem_ids_preorder_iff (h : page.Linked) {o : Outline} (hd : o.DrawnFrom page)
    {id : String} : id ∈ o.preorder.map Element.id ↔ page.Reaches o.top.id id := by
  constructor
  · intro hm
    obtain ⟨x, hx, rfl⟩ := List.mem_map.1 hm
    exact (drawn_of_mem_preorder h hd hx).2
  · intro hr
    induction hr with
    | refl => exact List.mem_map.2 ⟨o.top, o.top_mem_preorder, rfl⟩
    | tail _ hl ih =>
      obtain ⟨x, hx, rfl⟩ := List.mem_map.1 ih
      obtain ⟨e, he, hm⟩ := hl
      cases he.symm.trans (drawn_of_mem_preorder h hd hx).1
      obtain ⟨y, hy, rfl⟩ := exists_mem_preorder_of_lists hd hx hm
      exact List.mem_map.2 ⟨y, hy, rfl⟩

mutual

theorem nodup_preorder (h : page.Linked) : ∀ {o : Outline}, o.DrawnFrom page →
    (o.preorder.map Element.id).Nodup
  | .node e below, hd => by
    simp only [DrawnFrom] at hd
    obtain ⟨he, hc, hall⟩ := hd
    have hl : ∀ o ∈ below, page.Lists e.id o.top.id := fun o ho =>
      ⟨e, he, hc ▸ List.mem_map.2 ⟨o, ho, rfl⟩⟩
    refine List.nodup_cons.2 ⟨?_, nodup_preorders h hall hl ?_⟩
    · intro hm
      obtain ⟨x, hx, hid⟩ := List.mem_map.1 hm
      obtain ⟨o, ho, -, hr⟩ := drawn_of_mem_preorders h hall hx
      exact h.not_reaches_of_lists (hl o ho) (hid ▸ hr)
    · exact hc ▸ h.nodup_children he

/-- What hangs below different children of one parent is different. -/
theorem nodup_preorders (h : page.Linked) : ∀ {os : List Outline} {parent : String},
    AllDrawnFrom page os → (∀ o ∈ os, page.Lists parent o.top.id) →
      (os.map fun o => o.top.id).Nodup → ((preorders os).map Element.id).Nodup
  | [], _, _, _, _ => List.nodup_nil
  | o :: rest, parent, hd, hl, hn => by
    simp only [AllDrawnFrom] at hd
    obtain ⟨hnew, hn⟩ := List.nodup_cons.1 hn
    rw [preorders, List.map_append]
    refine List.nodup_append.2 ⟨nodup_preorder h hd.1,
      nodup_preorders h hd.2 (fun p hp => hl p (List.mem_cons_of_mem _ hp)) hn, ?_⟩
    intro a ha b hb hab
    obtain ⟨x, hx, rfl⟩ := List.mem_map.1 ha
    obtain ⟨y, hy, rfl⟩ := List.mem_map.1 hb
    obtain ⟨-, hrx⟩ := drawn_of_mem_preorder h hd.1 hx
    obtain ⟨p, hp, -, hry⟩ := drawn_of_mem_preorders h hd.2 hy
    have heq := h.siblings_apart (hl o List.mem_cons_self)
      (hl p (List.mem_cons_of_mem _ hp)) hrx (hab ▸ hry)
    exact hnew (List.mem_map.2 ⟨p, hp, heq.symm⟩)

end

mutual

theorem height_lt_length : ∀ o : Outline, o.height < o.preorder.length
  | .node e below => by
    have := heights_le_length below
    simp only [height, preorder, List.length_cons]
    omega

theorem heights_le_length : ∀ os : List Outline, heights os ≤ (preorders os).length
  | [] => Nat.le_refl _
  | o :: rest => by
    have := height_lt_length o
    have := heights_le_length rest
    simp only [heights, preorders, List.length_append]
    omega

end

/-- Every outline fits into its page, with generations to spare. -/
theorem height_lt_size (h : page.Linked) {o : Outline} (hd : o.DrawnFrom page) :
    o.height < page.size := by
  have hsub : o.preorder.map Element.id ⊆ page.elements.keys := by
    intro id hm
    obtain ⟨e, he, rfl⟩ := List.mem_map.1 hm
    exact (page.elements.mem_keys_iff _).2 ⟨e, (drawn_of_mem_preorder h hd he).1⟩
  have hle := ((nodup_preorder h hd).subperm hsub).length_le
  rw [List.length_map, OrderedMap.keys, List.length_map] at hle
  exact Nat.lt_of_lt_of_le o.height_lt_length hle

/-- From its root a page that is a tree is drawn element by element. -/
theorem perm_preorder (h : page.Linked) (hk : page.Keyed) {o : Outline} (hd : o.DrawnFrom page)
    (hroot : page.root = some o.top.id) : o.preorder.Perm page.elements.values := by
  have hids : page.elements.values.map Element.id = page.elements.keys := by
    rw [OrderedMap.values, OrderedMap.keys, List.map_map]
    apply List.map_congr_left
    intro p hp
    exact hk ((page.elements.mem_entries_iff _ _).1 hp)
  have hvalues : page.elements.values.Nodup := by
    apply List.Nodup.of_map Element.id
    rw [hids]
    exact page.elements.nodup_keys
  apply (List.perm_ext_iff_of_nodup (nodup_preorder h hd).of_map hvalues).2
  intro e
  constructor
  · intro hm
    have he := (drawn_of_mem_preorder h hd hm).1
    exact List.mem_map.2 ⟨(e.id, e), (page.elements.mem_entries_iff _ _).2 he, rfl⟩
  · intro hm
    obtain ⟨⟨id, f⟩, hf, rfl⟩ := List.mem_map.1 hm
    have he : page.get? id = some f := (page.elements.mem_entries_iff _ _).1 hf
    obtain ⟨d, hdepth⟩ := h.deep he
    obtain ⟨x, hx, hid⟩ := List.mem_map.1
      ((mem_ids_preorder_iff h hd).2 (h.reaches_of_atDepth hdepth hroot))
    have hget := (drawn_of_mem_preorder h hd hx).1
    rw [hid] at hget
    cases he.symm.trans hget
    exact hx

end Content

end Outline

namespace Page

open Outline

variable {page : Page}

/-! ## Every element has an outline -/

/-- A choice of outlines for the children of an element, in their order. -/
theorem exists_outlines {Good : Outline → Prop} : ∀ {children : List String},
    (∀ child ∈ children, ∃ o, Good o ∧ o.top.id = child) →
      ∃ os : List Outline, children = os.map (fun o => o.top.id) ∧ ∀ o ∈ os, Good o
  | [], _ => ⟨[], rfl, by simp⟩
  | child :: rest, hall => by
    obtain ⟨o, hgood, hid⟩ := hall child List.mem_cons_self
    obtain ⟨os, hmap, hos⟩ := exists_outlines fun c hc => hall c (List.mem_cons_of_mem _ hc)
    refine ⟨o :: os, by simp [hid, ← hmap], ?_⟩
    intro p hp
    rcases List.mem_cons.1 hp with rfl | hp
    · exact hgood
    · exact hos p hp

/-- The induction is on the generations that are left below an element of depth `d`. -/
theorem Linked.exists_outline_of_atDepth (h : page.Linked) (hk : page.Keyed) :
    ∀ {n d : Nat} {id : String} {e : Element}, page.size = d + n → page.get? id = some e →
      page.AtDepth d id →
        ∃ o : Outline, (o.DrawnFrom page ∧ o.height + d < page.size) ∧ o.top = e := by
  intro n
  induction n with
  | zero =>
    intro d id e hsize _ hd
    -- An element this deep would make a chain longer than the page.
    have := h.atDepth_lt_size hd
    omega
  | succ n ih =>
    intro d id e hsize he hd
    have hkid : ∀ child ∈ e.children,
        ∃ o : Outline, (o.DrawnFrom page ∧ o.height + (d + 1) < page.size) ∧ o.top.id = child := by
      intro child hm
      obtain ⟨c, hc, -⟩ := h.child_stored he hm
      obtain ⟨o, hgood, htop⟩ := ih (by omega) hc (h.atDepth_of_lists ⟨e, he, hm⟩ hd)
      exact ⟨o, hgood, by rw [htop, hk hc]⟩
    obtain ⟨os, hmap, hos⟩ := exists_outlines hkid
    refine ⟨.node e os, ⟨⟨?_, hmap, allDrawnFrom_iff.2 fun o ho => (hos o ho).1⟩, ?_⟩, rfl⟩
    · rw [hk he]
      exact he
    · have hlt := h.atDepth_lt_size hd
      have : heights os ≤ page.size - d - 1 := by
        apply heights_le_iff.2
        intro o ho
        have := (hos o ho).2
        omega
      simp only [height]
      omega

theorem Linked.exists_outline (h : page.Linked) (hk : page.Keyed) {id : String} {e : Element}
    (he : page.get? id = some e) :
    ∃ o : Outline, o.DrawnFrom page ∧ o.top = e ∧ o.height < page.size := by
  obtain ⟨d, hd⟩ := h.deep he
  have hlt := h.atDepth_lt_size hd
  obtain ⟨o, ⟨hdrawn, hh⟩, htop⟩ :=
    h.exists_outline_of_atDepth hk (n := page.size - d) (by omega) he hd
  exact ⟨o, hdrawn, htop, by omega⟩

/-! ## Walks -/

/-- A walk visits outlines in preorder, if each has generations to spare.  The induction is on
the number of elements still to visit, since an agenda mixes outlines of all heights. -/
theorem walk_outlines {σ : Type} (visit : σ → Element → Except Failure σ) :
    ∀ (m : Nat) (tasks : List (Outline × Nat)) (state : σ),
      (preorders (tasks.map Prod.fst)).length = m →
      (∀ t ∈ tasks, t.1.DrawnFrom page ∧ t.1.height < t.2) →
      page.walk visit state (tasks.map fun t => (t.1.top.id, t.2)) =
        (preorders (tasks.map Prod.fst)).foldlM visit state := by
  intro m
  induction m using Nat.strongRecOn with
  | _ m ih =>
    intro tasks state hm hall
    cases tasks with
    | nil => simp [walk, preorders, pure, Except.pure]
    | cons t rest =>
      obtain ⟨⟨e, below⟩, n⟩ := t
      obtain ⟨hd, hn⟩ := hall _ List.mem_cons_self
      obtain ⟨n, rfl⟩ : ∃ k, n = k + 1 := ⟨n - 1, by simp only at hn; omega⟩
      simp only [DrawnFrom] at hd
      obtain ⟨he, hc, hbelow⟩ := hd
      simp only [List.map_cons, preorders, preorder, top_node, List.cons_append, List.foldlM_cons]
      rw [walk]
      split
      · rename_i hnone
        exact absurd (hnone.symm.trans he) (by simp)
      · rename_i e' he'
        cases he.symm.trans he'
        cases hv : visit state e with
        | error failure => rfl
        | ok state' =>
          -- The children go onto the agenda with one generation less, before what was on it.
          have hagenda : e.children.map (·, n) ++ rest.map (fun t => (t.1.top.id, t.2)) =
              (below.map (·, n) ++ rest).map fun t => (t.1.top.id, t.2) := by
            simp [hc]
          have hkeep : (below.map (·, n) ++ rest).map Prod.fst = below ++ rest.map Prod.fst := by
            simp [Function.comp_def]
          have hlen : (preorders ((below.map (·, n) ++ rest).map Prod.fst)).length < m := by
            rw [hkeep, preorders_append, ← hm]
            simp [preorders, preorder]
          rw [← preorders_append, ← hkeep]
          simp only [hagenda]
          apply ih _ hlen _ state' rfl
          intro t ht
          rcases List.mem_append.1 ht with ht | ht
          · obtain ⟨o, ho, rfl⟩ := List.mem_map.1 ht
            refine ⟨allDrawnFrom_iff.1 hbelow o ho, ?_⟩
            have := heights_le_iff.1 (Nat.le_refl (heights below)) o ho
            simp only [height] at hn ⊢
            omega
          · exact hall t (List.mem_cons_of_mem _ ht)

theorem walkFrom_eq {σ : Type} (visit : σ → Element → Except Failure σ) (state : σ) {o : Outline}
    (hd : o.DrawnFrom page) (hh : o.height < page.size) :
    page.walkFrom visit state o.top.id = o.preorder.foldlM visit state := by
  have := @walk_outlines page _ visit _ [(o, page.generations)] state rfl (by
    intro t ht
    rw [List.mem_singleton.1 ht]
    exact ⟨hd, by simp only [generations]; omega⟩)
  simpa [walkFrom, preorders] using this

theorem foldlM_collect (es : List Element) (seen : List Element) :
    es.foldlM (fun seen e => (.ok (e :: seen) : Except Failure (List Element))) seen =
      .ok (es.reverse ++ seen) := by
  induction es generalizing seen with
  | nil => rfl
  | cons e rest ih => simp [List.foldlM_cons, bind, Except.bind, ih]

/-- A traversal lists the outline of its start. -/
theorem Linked.traverse_eq (h : page.Linked) (hk : page.Keyed) {id : String} {e : Element}
    (he : page.get? id = some e) :
    ∃ o : Outline, o.DrawnFrom page ∧ o.top = e ∧ page.traverse (some id) = .ok o.preorder := by
  obtain ⟨o, hd, rfl, hh⟩ := h.exists_outline hk he
  refine ⟨o, hd, rfl, ?_⟩
  have hid := hk he
  simp only [traverse, Option.or]
  rw [← hid, walkFrom_eq _ _ hd hh, foldlM_collect]
  simp [Functor.map, Except.map]

/-- Below an element lies what it reaches, itself excepted, each element once. -/
theorem Linked.descendants_eq (h : page.Linked) (hk : page.Keyed) {id : String} {e : Element}
    (he : page.get? id = some e) :
    ∃ ids, page.descendants id = .ok ids ∧ (id :: ids).Nodup ∧
      ∀ x, x ∈ id :: ids ↔ page.Reaches id x := by
  obtain ⟨o, hd, htop, ht⟩ := h.traverse_eq hk he
  have hid : o.top.id = id := by rw [htop, hk he]
  refine ⟨(o.preorder.map Element.id).drop 1, ?_, ?_, fun x => ?_⟩
  · simp [descendants, ht, Functor.map, Except.map]
  -- Without its first id the preorder is what lies below.
  all_goals
    have hsplit : id :: (o.preorder.map Element.id).drop 1 = o.preorder.map Element.id := by
      cases o with
      | node e below => simp [preorder, ← hid, top]
    rw [hsplit]
  · exact nodup_preorder h hd
  · rw [mem_ids_preorder_iff h hd, hid]

/-! ## The way up -/

theorem Linked.ancestorsWithin_eq (h : page.Linked) : ∀ {d n : Nat} {id : String},
    page.AtDepth d id → d < n →
      ∃ above, page.ancestorsWithin n id = .ok above ∧
        ∀ x, x ∈ above ↔ x ≠ id ∧ page.Reaches x id := by
  intro d
  induction d with
  | zero =>
    intro n id hd hn
    obtain ⟨n, rfl⟩ : ∃ k, n = k + 1 := ⟨n - 1, by omega⟩
    obtain ⟨e, he, hnone⟩ := h.root_stored hd
    refine ⟨[], by simp [ancestorsWithin, he, hnone], ?_⟩
    intro x
    simp only [List.not_mem_nil, false_iff, not_and]
    intro hne hr
    cases hr with
    | refl => exact hne rfl
    | tail _ hl => exact absurd (hnone.symm.trans (h.parent_of_lists hl he)) (by simp)
  | succ d ih =>
    intro n id hd hn
    -- An element of depth `d + 1` has a parent of depth `d`, and there is a step left to reach it.
    obtain ⟨n, rfl⟩ : ∃ k, n = k + 1 := ⟨n - 1, by omega⟩
    obtain ⟨e, parent, he, hp, hdp⟩ := hd
    obtain ⟨above, habove, hmem⟩ := ih hdp (by omega : d < n)
    have hl := h.lists_of_parent he hp
    refine ⟨parent :: above, by simp [ancestorsWithin, he, hp, habove, Functor.map, Except.map],
      ?_⟩
    intro x
    rw [List.mem_cons, hmem]
    constructor
    · intro hx
      have hr : page.Reaches x parent := by
        rcases hx with rfl | ⟨-, hr⟩
        · exact .refl
        · exact hr
      exact ⟨fun hne => h.not_reaches_of_lists hl (hne ▸ hr), hr.tail hl⟩
    · rintro ⟨hne, hr⟩
      rcases h.reaches_parent hr hl with heq | hr
      · exact absurd heq hne
      · by_cases hx : x = parent
        · exact Or.inl hx
        · exact Or.inr ⟨hx, hr⟩

theorem Linked.ancestors_eq (h : page.Linked) {id : String} {e : Element}
    (he : page.get? id = some e) :
    ∃ above, page.ancestors id = .ok above ∧ ∀ x, x ∈ above ↔ x ≠ id ∧ page.Reaches x id := by
  obtain ⟨d, hd⟩ := h.deep he
  have := h.atDepth_lt_size hd
  exact h.ancestorsWithin_eq hd (by simp only [generations]; omega)

end Page

end PageBuilder
