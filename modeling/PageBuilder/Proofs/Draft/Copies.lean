import PageBuilder.Draft.Copy
import PageBuilder.Proofs.Maps
import PageBuilder.Proofs.Page.IdSource
import PageBuilder.Proofs.Page.Outline
import PageBuilder.Proofs.Page.Reshape

/-!
# Copies are trees of their own

A list of elements is itself a page, with the first element as the root.  A copy taken from a tree
is such a page that is cut out of the tree (`copy_eq`); under fresh ids it is the same tree
renamed, and attaching it hangs that tree into the draft (`placeCopy_grafted`).
-/

namespace PageBuilder

namespace Page

variable {page : Page} {nodes : List Element}

/-! ## Lists of elements as pages -/

/-- The page that elements make by themselves. -/
def ofNodes (nodes : List Element) : Page :=
  ⟨.ofList (nodes.map fun e => (e.id, e)), nodes.head?.map Element.id⟩

theorem map_fst_nodes (nodes : List Element) :
    (nodes.map fun e => (e.id, e)).map Prod.fst = nodes.map Element.id := by
  simp [Function.comp_def]

/-- In the page of a list every element is found under its own id. -/
theorem get?_ofNodes_iff (hn : (nodes.map Element.id).Nodup) {x : String} {e : Element} :
    (ofNodes nodes).get? x = some e ↔ e ∈ nodes ∧ e.id = x := by
  rw [get?, ofNodes, OrderedMap.get?_ofList_iff (by rwa [map_fst_nodes]), List.mem_map]
  constructor
  · rintro ⟨f, hf, heq⟩
    cases heq
    exact ⟨hf, rfl⟩
  · rintro ⟨he, rfl⟩
    exact ⟨e, he, rfl⟩

/-- And nothing else is. -/
theorem get?_ofNodes_eq_none_iff {x : String} :
    (ofNodes nodes).get? x = none ↔ x ∉ nodes.map Element.id := by
  rw [get?, ofNodes, OrderedMap.get?_ofList, lookup_eq_none_iff_not_mem, List.map_reverse,
    List.mem_reverse, map_fst_nodes]

/-- Elements that are stored one after the other cover those that were there. -/
theorem get?_foldl_put (page : Page) (nodes : List Element) (x : String) :
    (nodes.foldl put page).get? x = ((ofNodes nodes).get? x).or (page.get? x) := by
  have helements : (nodes.foldl put page).elements =
      (nodes.map fun e => (e.id, e)).foldl (fun m p => m.insert p.1 p.2) page.elements := by
    induction nodes generalizing page with
    | nil => rfl
    | cons e rest ih => rw [List.foldl_cons, ih]; rfl
  rw [get?, helements, OrderedMap.get?_foldl_insert, get?, ofNodes, OrderedMap.get?_ofList]
  rfl

theorem root_foldl_put (page : Page) (nodes : List Element) :
    (nodes.foldl put page).root = page.root := by
  induction nodes generalizing page with
  | nil => rfl
  | cons e rest ih => exact ih (page.put e)

/-- Elements that make a tree by themselves. -/
structure Detached (nodes : List Element) : Prop where
  nonempty : nodes ≠ []
  nodup : (nodes.map Element.id).Nodup
  linked : (ofNodes nodes).Linked

theorem Detached.keyed (h : Detached nodes) : (ofNodes nodes).Keyed :=
  fun he => ((get?_ofNodes_iff h.nodup).1 he).2

/-- No two copied elements share an id. -/
theorem Detached.get?_of_mem (h : Detached nodes) {e : Element} (he : e ∈ nodes) :
    (ofNodes nodes).get? e.id = some e :=
  (get?_ofNodes_iff h.nodup).2 ⟨he, rfl⟩

theorem get?_ofNodes_single {e f : Element} {id : String} :
    (ofNodes [e]).get? id = some f ↔ f = e ∧ f.id = id := by
  rw [get?_ofNodes_iff (by simp), List.mem_singleton]

/-- A new element alone makes a tree. -/
theorem detached_single {e : Element} (hc : e.children = []) (hp : e.parent = none) :
    Detached [e] := by
  have hself : (ofNodes [e]).get? e.id = some e := get?_ofNodes_single.2 ⟨rfl, rfl⟩
  refine ⟨by simp, by simp, fun hr => ?_, fun he hm => ?_, fun he hparent => ?_, fun he => ?_,
    fun he => ?_⟩
  · cases hr
    exact ⟨e, hself, hp⟩
  all_goals
    obtain ⟨rfl, rfl⟩ := get?_ofNodes_single.1 he
  · simp [hc] at hm
  · exact absurd (hp.symm.trans hparent) (by simp)
  · simp [hc]
  · exact ⟨0, rfl⟩

/-! ## Storing elements below a parent -/

/-- A tree's elements as they are stored under a parent. -/
def underParent (top : String) (parent : Option String) (e : Element) : Element :=
  if e.id = top then { e with parent := parent } else e

@[simp] theorem id_underParent (top : String) (parent : Option String) (e : Element) :
    (underParent top parent e).id = e.id := by
  unfold underParent
  split <;> rfl

theorem map_id_underParent (top : String) (parent : Option String) (nodes : List Element) :
    (nodes.map (underParent top parent)).map Element.id = nodes.map Element.id := by
  simp [Function.comp_def]

/-- To hang an element in is to add it to the children of its parent, and to change nothing else.
-/
theorem get?_hang (page : Page) (parent : Option String) (index : Option Int) (top x : String) :
    (Draft.hang page parent index top).get? x =
      if parent = some x then
        (page.get? x).map fun e => { e with children := insertAt index top e.children }
      else page.get? x := by
  cases parent with
  | none => simp [Draft.hang, get?]
  | some id =>
    rw [Draft.hang, get?_addChild]
    by_cases hx : x = id
    · simp [hx]
    · rw [if_neg hx, if_neg fun h => hx (Option.some.inj h).symm]

/-- Without a parent it becomes the root. -/
theorem root_hang (page : Page) (parent : Option String) (index : Option Int) (top : String) :
    (Draft.hang page parent index top).root =
      if parent.isNone then some top else page.root := by
  cases parent <;> rfl

/-- Hanging a new id under a parent and storing a tree with that id on top hangs the tree in. -/
theorem grafted_foldl_put {parent : Option String} {index : Option Int} {top : String}
    (hd : Detached nodes) (htop : (ofNodes nodes).root = some top)
    (hfresh : ∀ e ∈ nodes, page.get? e.id = none)
    (hhost : (parent = none ∧ page.root = none) ∨
      ∃ id e, parent = some id ∧ page.get? id = some e) :
    page.Grafted (ofNodes nodes) parent index top
      ((nodes.map (underParent top parent)).foldl put (Draft.hang page parent index top)) := by
  have hids := map_id_underParent top parent nodes
  -- Storing the tree leaves all other ids alone.
  have hpage : ∀ {x}, (ofNodes nodes).get? x = none →
      ((nodes.map (underParent top parent)).foldl put (Draft.hang page parent index top)).get? x =
        (Draft.hang page parent index top).get? x := by
    intro x hx
    rw [get?_foldl_put, get?_ofNodes_eq_none_iff.2 (by rwa [hids, ← get?_ofNodes_eq_none_iff])]
    rfl
  have hapart : ∀ {x q}, (ofNodes nodes).get? x = some q → page.get? x = none := by
    intro x q hq
    obtain ⟨hm, rfl⟩ := (get?_ofNodes_iff hd.nodup).1 hq
    exact hfresh q hm
  refine ⟨htop, ?_, hapart, hhost, ?_, ?_, ?_⟩
  · rw [root_foldl_put, root_hang]
  · intro x q hq
    obtain ⟨hm, rfl⟩ := (get?_ofNodes_iff hd.nodup).1 hq
    have hq' := (get?_ofNodes_iff (hids ▸ hd.nodup)).2
      ⟨List.mem_map_of_mem (f := underParent top parent) hm, id_underParent top parent q⟩
    rw [get?_foldl_put, hq']
    rfl
  · intro x e he hx
    have hnone : (ofNodes nodes).get? x = none := by
      cases hq : (ofNodes nodes).get? x with
      | none => rfl
      | some q => exact absurd ((hapart hq).symm.trans he) (by simp)
    rw [hpage hnone, get?_hang, if_pos hx, he]
    rfl
  · intro x hx hp
    rw [hpage hx, get?_hang, if_neg hp]

end Page

namespace Draft

open Page

variable {draft : Draft}

/-! ## Taking a copy -/

/-- Every element of a tree can be copied, and the copy is what the element and those below it
make by themselves. -/
theorem copy_eq (hl : draft.page.Linked) (hk : draft.page.Keyed) {id : String} {e : Element}
    (he : draft.page.get? id = some e) :
    ∃ nodes, draft.copy id = .ok nodes ∧ nodes ≠ [] ∧ (nodes.map Element.id).Nodup ∧
      draft.page.CutOut id (ofNodes nodes) := by
  obtain ⟨o, hd, htop, htraverse⟩ := hl.traverse_eq hk he
  have hmem := fun x => @Outline.mem_ids_preorder_iff _ hl _ hd x
  have hdrawn := fun x => Outline.drawn_of_mem_preorder hl hd (x := x)
  have hnodup := Outline.nodup_preorder hl hd
  cases o with
  | node f below =>
    cases htop
    cases hk he
    simp only [Outline.preorder, Outline.top_node] at hmem hdrawn hnodup htraverse
    -- Of the elements below it matters only which they are.
    generalize Outline.preorders below = rest at hmem hdrawn hnodup htraverse
    have hhead : draft.page.get? f.id = some f := he
    have hids : ({ f with parent := none } :: rest).map Element.id = (f :: rest).map Element.id :=
      rfl
    have hcopied : (({ f with parent := none } :: rest).map Element.id).Nodup := hnodup
    refine ⟨{ f with parent := none } :: rest, ?_, by simp, hcopied, rfl, ?_, ?_, ?_⟩
    · simp [copy, require, hhead, htraverse, bind, Except.bind, pure, Except.pure]
    · exact ⟨f, hhead, (get?_ofNodes_iff hcopied).2 ⟨List.mem_cons_self, rfl⟩⟩
    · intro x hx hr
      obtain ⟨y, hy, rfl⟩ := List.mem_map.1 ((hmem x).2 hr)
      rw [(hdrawn y hy).1]
      rcases List.mem_cons.1 hy with rfl | hy
      · exact absurd rfl hx
      · exact (get?_ofNodes_iff hcopied).2 ⟨List.mem_cons_of_mem _ hy, rfl⟩
    · intro x hr
      rw [get?_ofNodes_eq_none_iff, hids, hmem]
      exact hr

theorem copy_stored {id : String} {nodes : List Element} (h : draft.copy id = .ok nodes) :
    ∃ e, draft.page.get? id = some e := by
  cases he : draft.page.get? id with
  | some e => exact ⟨e, rfl⟩
  | none => simp [copy, require, he, bind, Except.bind] at h

/-- What is copied is a tree of its own, whose first element has no parent. -/
theorem copy_detached (hl : draft.page.Linked) (hk : draft.page.Keyed) {id : String}
    {nodes : List Element} (h : draft.copy id = .ok nodes) : Detached nodes := by
  obtain ⟨e, he⟩ := copy_stored h
  obtain ⟨nodes', hcopy, hne, hnodup, hcut⟩ := copy_eq hl hk he
  cases h.symm.trans hcopy
  exact ⟨hne, hnodup, hl.cutOut hcut⟩

/-! ## New names -/

section Names

variable {nodes : List Element} {ids : List String}

/-- A new name stands beside an old one. -/
theorem mem_zip_of_newNames {x y : String} (h : (newNames nodes ids).get? x = some y) :
    (x, y) ∈ (nodes.map Element.id).zip ids := by
  rw [newNames, OrderedMap.get?_ofList] at h
  exact List.mem_reverse.1 (mem_of_lookup h)

/-- With as many ids as elements every element gets a name, also when elements share an id. -/
theorem exists_newName (hlen : ids.length = nodes.length) {x : String}
    (hx : x ∈ nodes.map Element.id) : ∃ y ∈ ids, (newNames nodes ids).get? x = some y := by
  have hkey : x ∈ (newNames nodes ids).keys := by
    rw [newNames, OrderedMap.mem_keys_ofList, List.map_fst_zip (by simp [hlen])]
    exact hx
  obtain ⟨y, hy⟩ := (OrderedMap.mem_keys_iff _ x).1 hkey
  exact ⟨y, (List.of_mem_zip (mem_zip_of_newNames hy)).2, hy⟩

/-- No new name is given twice, as long as the ids drawn are different. -/
theorem newNames_injective (hids : ids.Nodup) {x y z : String}
    (hx : (newNames nodes ids).get? x = some z) (hy : (newNames nodes ids).get? y = some z) :
    x = y := by
  obtain ⟨i, hi, hxi⟩ := List.mem_iff_getElem.1 (mem_zip_of_newNames hx)
  obtain ⟨j, hj, hyj⟩ := List.mem_iff_getElem.1 (mem_zip_of_newNames hy)
  rw [List.getElem_zip, Prod.mk.injEq] at hxi hyj
  have hij := (List.getElem_inj hids).1 (hxi.2.trans hyj.2.symm)
  subst hij
  exact hxi.1.symm.trans hyj.1

/-- The new name of an id; one that was not copied keeps its name. -/
def nameIn (names : OrderedMap String) (x : String) : String :=
  (names.get? x).getD x

/-- So elements that were different stay so. -/
theorem nameIn_injective (hlen : ids.length = nodes.length) (hids : ids.Nodup) {x y : String}
    (hx : x ∈ nodes.map Element.id) (hy : y ∈ nodes.map Element.id)
    (heq : nameIn (newNames nodes ids) x = nameIn (newNames nodes ids) y) : x = y := by
  obtain ⟨x', -, hx'⟩ := exists_newName hlen hx
  obtain ⟨y', -, hy'⟩ := exists_newName hlen hy
  simp only [nameIn, hx', hy', Option.getD_some] at heq
  exact newNames_injective hids hx' (heq ▸ hy')

/-- No child is lost if all have new names. -/
theorem filterMap_names {names : OrderedMap String} {children : List String}
    (h : ∀ child ∈ children, ∃ y, names.get? child = some y) :
    children.filterMap names.get? = children.map (nameIn names) := by
  induction children with
  | nil => rfl
  | cons child rest ih =>
    obtain ⟨y, hy⟩ := h child List.mem_cons_self
    rw [List.filterMap_cons, hy, List.map_cons, nameIn, hy,
      ih fun c hc => h c (List.mem_cons_of_mem _ hc)]
    rfl

/-- The parents of copied elements are copied, that of the first one excepted. -/
theorem parent_mem_nodes (hd : Detached nodes) {node : Element} (hm : node ∈ nodes)
    {parent : String} (hp : node.parent = some parent) : parent ∈ nodes.map Element.id := by
  obtain ⟨host, hhost, -⟩ := hd.linked.listed (hd.get?_of_mem hm) hp
  obtain ⟨hm, rfl⟩ := (get?_ofNodes_iff hd.nodup).1 hhost
  exact List.mem_map_of_mem hm

/-- The children of a copied element are copied too. -/
theorem children_mem_nodes (hd : Detached nodes) {node : Element} (hm : node ∈ nodes)
    {child : String} (hc : child ∈ node.children) : child ∈ nodes.map Element.id := by
  obtain ⟨c, hc, -⟩ := hd.linked.child_stored (hd.get?_of_mem hm) hc
  obtain ⟨hm, rfl⟩ := (get?_ofNodes_iff hd.nodup).1 hc
  exact List.mem_map_of_mem hm

/-- The copy begins with the element that the original begins with. -/
theorem root_renamed (names : OrderedMap String) (nodes : List Element) :
    (ofNodes (nodes.map (renamed names none))).root =
      (ofNodes nodes).root.map (nameIn names) := by
  cases nodes <;> rfl

theorem nodup_renamed (hd : Detached nodes) (hlen : ids.length = nodes.length)
    (hids : ids.Nodup) :
    ((nodes.map (renamed (newNames nodes ids) none)).map Element.id).Nodup := by
  have hmap : (nodes.map (renamed (newNames nodes ids) none)).map Element.id =
      (nodes.map Element.id).map (nameIn (newNames nodes ids)) := by
    simp [Function.comp_def, renamed, nameIn]
  rw [hmap]
  exact hd.nodup.map_on fun x hx y hy heq => nameIn_injective hlen hids hx hy heq

/-- Under new names a tree is the same tree. -/
theorem detached_renamed (hd : Detached nodes) (hlen : ids.length = nodes.length)
    (hids : ids.Nodup) : Detached (nodes.map (renamed (newNames nodes ids) none)) := by
  have hnodup := nodup_renamed hd hlen hids
  refine ⟨by simpa using hd.nonempty, hnodup, @Linked.renamed _ (nameIn (newNames nodes ids)) _
    hd.linked ⟨root_renamed _ _, ?_, ?_, ?_⟩⟩
  · intro x y e f he hf heq
    obtain ⟨hem, rfl⟩ := (get?_ofNodes_iff hd.nodup).1 he
    obtain ⟨hfm, rfl⟩ := (get?_ofNodes_iff hd.nodup).1 hf
    exact nameIn_injective hlen hids (List.mem_map_of_mem hem) (List.mem_map_of_mem hfm) heq
  · intro x e he
    obtain ⟨hm, rfl⟩ := (get?_ofNodes_iff hd.nodup).1 he
    refine ⟨_, (get?_ofNodes_iff hnodup).2 ⟨List.mem_map_of_mem hm, rfl⟩, ?_, ?_⟩
    · apply filterMap_names
      intro child hc
      obtain ⟨y, -, hy⟩ := exists_newName hlen (children_mem_nodes hd hm hc)
      exact ⟨y, hy⟩
    · cases hp : e.parent with
      | none => simp [renamed, hp]
      | some parent =>
        obtain ⟨y, -, hy⟩ := exists_newName hlen (parent_mem_nodes hd hm hp)
        simp [renamed, nameIn, hp, hy]
  · intro y f hf
    obtain ⟨hm, rfl⟩ := (get?_ofNodes_iff hnodup).1 hf
    obtain ⟨e, he, rfl⟩ := List.mem_map.1 hm
    exact ⟨e.id, e, hd.get?_of_mem he, rfl⟩

/-- Only the first of the copied elements takes its parent from outside. -/
theorem underParent_renamed (hd : Detached nodes) (hlen : ids.length = nodes.length)
    (hids : ids.Nodup) {parent : Option String} {first : String}
    (hfirst : (ofNodes nodes).root = some first) {node : Element} (hm : node ∈ nodes) :
    underParent (nameIn (newNames nodes ids) first) parent
        (renamed (newNames nodes ids) none node) =
      renamed (newNames nodes ids) parent node := by
  obtain ⟨e, he, hen⟩ := hd.linked.root_stored hfirst
  obtain ⟨hem, rfl⟩ := (get?_ofNodes_iff hd.nodup).1 he
  cases hp : node.parent with
  | none =>
    have heq := hd.linked.root_of_parent_none (hd.get?_of_mem hm) hp
    have hid : node.id = e.id := Option.some.inj (heq.symm.trans hfirst)
    simp [underParent, renamed, nameIn, hp, hid]
  | some p =>
    obtain ⟨y, -, hy⟩ := exists_newName hlen (parent_mem_nodes hd hm hp)
    have hne : (renamed (newNames nodes ids) none node).id ≠ nameIn (newNames nodes ids) e.id := by
      intro heq
      have hid := nameIn_injective hlen hids (List.mem_map_of_mem hm) (List.mem_map_of_mem hem) heq
      have hnode := hd.get?_of_mem hm
      rw [hid] at hnode
      cases he.symm.trans hnode
      exact absurd (hen.symm.trans hp) (by simp)
    rw [underParent, if_neg hne]
    simp [renamed, hp, hy]

end Names

/-! ## Attaching a copy -/

/-- A copy of a tree is drawn as many ids as it has elements; the first element is hung in under
its new id, and the others are put beside it. -/
theorem placeCopy_eq {nodes : List Element} {ids : List String} {source : IdSource}
    (hdraw : IdSource.drawMany nodes.length draft.ids = (ids, source)) {first top : String}
    (hfirst : (ofNodes nodes).root = some first)
    (htop : (newNames nodes ids).get? first = some top) (parent : Option String)
    (index : Option Int) :
    draft.placeCopy parent nodes index = (top, { draft with
      ids := source
      page := (nodes.map (renamed (newNames nodes ids) parent)).foldl put
        (hang draft.page parent index top) }) := by
  have hhead : (nodes.head?.map Element.id).bind (newNames nodes ids).get? = some top := by
    have hid : nodes.head?.map Element.id = some first := hfirst
    rw [hid]
    exact htop
  simp [placeCopy, hdraw, hhead]

/-- There is a first element. -/
theorem exists_first {nodes : List Element} (hd : Detached nodes) :
    ∃ first ∈ nodes.map Element.id, (ofNodes nodes).root = some first := by
  cases nodes with
  | nil => exact absurd rfl hd.nonempty
  | cons node rest => exact ⟨node.id, List.mem_cons_self, rfl⟩

/-- Attaching elements that make a tree hangs in that tree under new ids. -/
theorem placeCopy_grafted {nodes : List Element} {parent : Option String} (index : Option Int)
    (ha : draft.ids.Ahead draft.page) (hd : Detached nodes)
    (hhost : (parent = none ∧ draft.page.root = none) ∨
      ∃ id e, parent = some id ∧ draft.page.get? id = some e) :
    ∃ names part, (∀ x ∈ nodes.map Element.id, ∃ y, names.get? x = some y) ∧
      part = nodes.map (renamed names none) ∧ Detached part ∧
      draft.page.Grafted (ofNodes part) parent index (draft.placeCopy parent nodes index).1
        (draft.placeCopy parent nodes index).2.page ∧
      ∀ e ∈ part, e.id ∈ (IdSource.drawMany nodes.length draft.ids).1 ∧
        ∃ n : Nat, e.id = draft.ids.idOf n ∧
          (n : Int) < (draft.placeCopy parent nodes index).2.ids.next := by
  obtain ⟨⟨ids, source⟩, hdraw⟩ : ∃ p, IdSource.drawMany nodes.length draft.ids = p := ⟨_, rfl⟩
  obtain ⟨hlen, hids, hfresh, -, -, hall⟩ := IdSource.drawMany_fresh ha hdraw
  have hpart := detached_renamed hd hlen hids
  have hmem : ∀ e ∈ nodes.map (renamed (newNames nodes ids) none), e.id ∈ ids := by
    intro e he
    obtain ⟨node, hm, rfl⟩ := List.mem_map.1 he
    obtain ⟨y, hy, hname⟩ := exists_newName hlen (List.mem_map_of_mem hm)
    simpa [renamed, hname] using hy
  obtain ⟨first, hfirstm, hfirst⟩ := exists_first hd
  obtain ⟨top, -, htop⟩ := exists_newName hlen hfirstm
  have hname : nameIn (newNames nodes ids) first = top := by simp [nameIn, htop]
  -- To rename and hang at once is to rename first and to hang then.
  have hunder : nodes.map (renamed (newNames nodes ids) parent) =
      (nodes.map (renamed (newNames nodes ids) none)).map (underParent top parent) := by
    rw [List.map_map]
    apply List.map_congr_left
    intro node hm
    rw [Function.comp_apply, ← hname, underParent_renamed hd hlen hids hfirst hm]
  rw [placeCopy_eq hdraw hfirst htop]
  have hnamed : ∀ x ∈ nodes.map Element.id, ∃ y, (newNames nodes ids).get? x = some y := by
    intro x hx
    obtain ⟨y, -, hy⟩ := exists_newName hlen hx
    exact ⟨y, hy⟩
  refine ⟨newNames nodes ids, _, hnamed, rfl, hpart, ?_, fun e he =>
    ⟨hdraw ▸ hmem e he, hall _ (hmem e he)⟩⟩
  rw [hunder]
  refine grafted_foldl_put hpart ?_ (fun e he => get?_of_not_contains (hfresh _ (hmem e he))) hhost
  rw [root_renamed, hfirst, Option.map_some, hname]

end Draft

end PageBuilder
