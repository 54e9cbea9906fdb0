import PageBuilder.Proofs.Draft.Edits
import PageBuilder.Proofs.Draft.Growth
import PageBuilder.Proofs.Maps
import PageBuilder.Proofs.Page.Admission
import PageBuilder.Proofs.Page.Context
import PageBuilder.Proofs.Page.Positions
import PageBuilder.Proofs.Page.Survey

/-!
# What a removal takes away

A removal finds what it takes away by the children of elements, and what lies below an element can
also be told by the parents: on a tree both say the same (`Linked.reaches_iff_ancestors`).  In the
order of the page the elements taken away stand together, so that what is left is the old order
with one piece cut out (`Pruned.traverse_eq`).  An element that has just been inserted has nothing
below it, and removing it gives the page back, the order of its elements included.
-/

namespace PageBuilder

namespace Page

variable {page result : Page} {top parent : String}

/-! ## Both ways to look at a subtree -/

theorem ancestors_of_none {id : String} (h : page.get? id = none) : page.ancestors id = .ok [] := by
  simp [ancestors, generations, ancestorsWithin, h]

/-- An element reaches itself and the elements that it is an ancestor of. -/
theorem Linked.reaches_iff_ancestors (hl : page.Linked) {id x : String} {e : Element}
    (he : page.get? id = some e) :
    page.Reaches id x ↔ x = id ∨ ∃ above, page.ancestors x = .ok above ∧ id ∈ above := by
  cases hx : page.get? x with
  | none =>
    have hid : x ≠ id := fun heq => absurd (hx.symm.trans (heq ▸ he)) (by simp)
    constructor
    · intro hr
      obtain ⟨f, hf⟩ := hl.stored_of_reaches hr ⟨e, he⟩
      exact absurd (hx.symm.trans hf) (by simp)
    · rintro (heq | ⟨above, habove, hm⟩)
      · exact absurd heq hid
      · cases (ancestors_of_none hx).symm.trans habove
        exact absurd hm (by simp)
  | some f =>
    obtain ⟨above, habove, hmem⟩ := hl.ancestors_eq hx
    constructor
    · intro hr
      by_cases hid : x = id
      · exact Or.inl hid
      · exact Or.inr ⟨above, habove, (hmem id).2 ⟨fun heq => hid heq.symm, hr⟩⟩
    · rintro (rfl | ⟨above', habove', hm⟩)
      · exact .refl
      · cases habove.symm.trans habove'
        exact ((hmem id).1 hm).2

/-! ## The order of what is left -/

/-- An element, if it is a given one without one of its children. -/
def withoutChild (parent child : String) (e : Element) : Element :=
  if e.id = parent then { e with children := e.children.erase child } else e

theorem withoutChild_of_ne {child : String} {e : Element} (h : e.id ≠ parent) :
    withoutChild parent child e = e :=
  if_neg h

theorem map_withoutChild {child : String} {es : List Element} (h : ∀ e ∈ es, e.id ≠ parent) :
    es.map (withoutChild parent child) = es := by
  conv_rhs => rw [← List.map_id es]
  exact List.map_congr_left fun e he => withoutChild_of_ne (h e he)

theorem DrawnAround.traverse_eq {c : Outline.Context} {o : Outline} (h : page.DrawnAround c o)
    (hl : page.Linked) (hk : page.Keyed) :
    page.traverse none = .ok (c.ahead ++ o.preorder ++ c.behind) := by
  have ht := hl.traverse_of_drawnFrom hk h.drawn
  rw [c.preorder_plug] at ht
  simpa only [traverse, h.root, Option.none_or, Option.some_or] using ht

/-- Dropping an element cuts its piece out of the order of the page. -/
theorem Pruned.traverse_eq (hl : page.Linked) (hk : page.Keyed)
    (h : page.Pruned top parent result) :
    ∃ ahead cut behind, page.traverse none = .ok (ahead ++ cut ++ behind) ∧
      page.traverse (some top) = .ok cut ∧
      result.traverse none = .ok ((ahead ++ behind).map (withoutChild parent top)) := by
  obtain ⟨host, hhost, hm⟩ := h.listed
  obtain ⟨c, below, hc⟩ := hl.exists_drawnAround hk hhost
  obtain ⟨left, b, right, rfl, hb⟩ := exists_split hc.inner hm
  have hid : host.id = parent := hk hhost
  have hcut := hl.traverse_of_drawnFrom hk hc.child.inner
  -- The same context stands around the host before and after, with one child fewer in it.
  have hafter := (hc.pruned hl hb hid h).traverse_eq (hl.pruned h) (Keyed.pruned hk h)
  refine ⟨c.ahead ++ host :: Outline.preorders left, b.preorder,
    Outline.preorders right ++ c.behind, ?_, hb ▸ hcut, ?_⟩
  · rw [hc.traverse_eq hl hk]
    simp [Outline.preorder, Outline.preorders_append, Outline.preorders]
  · -- Only the parent lists the element, and it stands before all that it holds.
    have hcontext : ∀ x, x ∈ c.ahead ∨ x ∈ c.behind → x.id ≠ parent := by
      intro x hx heq
      have hr := (hc.apart hl hx).2
      rw [Outline.top_node, hid] at hr
      exact hr (heq ▸ .refl)
    have hsiblings : ∀ x ∈ Outline.preorders (left ++ b :: right), x.id ≠ parent := by
      intro x hx
      exact hid ▸ (stored_of_mem_preorders hl hc.inner hx).2
    have hhostMap : withoutChild parent top host =
        { host with children := host.children.erase top } := if_pos hid
    have hleft : (Outline.preorders left).map (withoutChild parent top) = Outline.preorders left :=
      map_withoutChild fun x hx => hsiblings x (by
        rw [Outline.preorders_append]
        exact List.mem_append_left _ hx)
    have hright : (Outline.preorders right).map (withoutChild parent top) =
        Outline.preorders right :=
      map_withoutChild fun x hx => hsiblings x (by
        rw [Outline.preorders_append, Outline.preorders]
        exact List.mem_append_right _ (List.mem_append_right _ hx))
    rw [hafter]
    simp only [List.map_append, List.map_cons, hhostMap, hleft, hright,
      map_withoutChild fun x hx => hcontext x (Or.inl hx),
      map_withoutChild fun x hx => hcontext x (Or.inr hx)]
    simp [Outline.preorder, Outline.preorders_append]

end Page

namespace Draft

open Page

variable {draft after : Draft} {id : String} {ids : List String}

/-! ## Removal -/

theorem keys_deleteAll (h : deleteAll ids draft = .ok () after) :
    after.page.elements.keys = draft.page.elements.keys.filter (· ∉ ids) := by
  induction ids generalizing draft with
  | nil =>
    cases h
    simp
  | cons id rest ih =>
    rw [deleteAll] at h
    split at h
    · rw [ih h, keys_delete, List.filter_filter]
      apply List.filter_congr
      intro x _
      by_cases hx : x = id <;> simp [hx]
    · cases h

/-- The elements that are left keep their order. -/
theorem keys_remove (h : Draft.remove id draft = .ok ids after) :
    after.page.elements.keys = draft.page.elements.keys.filter (· ∉ ids) := by
  unfold Draft.remove at h
  split at h
  · cases h
  · split at h
    · cases h
    · rename_i hdelete
      cases h
      rw [keys_deleteAll hdelete, dropChild, keys_modify]

/-- What a removal takes away and what it leaves. -/
structure Removed (page : Page) (id parent : String) (ids : List String) (result : Page) :
    Prop where
  nodup : ids.Nodup
  /-- The element and those that have it among their ancestors. -/
  mem_iff : ∀ {x}, x ∈ ids ↔ x = id ∨ ∃ above, page.ancestors x = .ok above ∧ id ∈ above
  parent_eq : ∃ e, page.get? id = some e ∧ e.parent = some parent
  root : result.root = page.root
  keys : result.elements.keys = page.elements.keys.filter (· ∉ ids)
  /-- Of the other elements only the parent changes, by the child that it loses. -/
  get?_eq : ∀ x, result.get? x =
    if x ∈ ids then none else (page.get? x).map (withoutChild parent id)
  /-- The order of the page loses one piece, which is the order of the subtree. -/
  traverse : ∃ ahead cut behind, page.traverse none = .ok (ahead ++ cut ++ behind) ∧
    page.traverse (some id) = .ok cut ∧
    result.traverse none = .ok ((ahead ++ behind).map (withoutChild parent id))

theorem removed_of_pruned {page result : Page} {parent : String} (hl : page.Linked)
    (hk : page.Keyed) {e : Element} (he : page.get? id = some e)
    (h : page.Pruned id parent result) (hnodup : ids.Nodup)
    (hmem : ∀ x, x ∈ ids ↔ page.Reaches id x)
    (hkeys : result.elements.keys = page.elements.keys.filter (· ∉ ids)) :
    Removed page id parent ids result := by
  refine ⟨hnodup, fun {x} => (hmem x).trans (hl.reaches_iff_ancestors he),
    ⟨e, he, hl.parent_of_lists h.listed he⟩, h.root, hkeys, fun x => ?_, h.traverse_eq hl hk⟩
  by_cases hx : x ∈ ids
  · rw [if_pos hx, h.get?_below ((hmem x).1 hx)]
  have hr : ¬ page.Reaches id x := fun hr => hx ((hmem x).2 hr)
  rw [if_neg hx]
  by_cases hparent : x = parent
  · subst hparent
    obtain ⟨host, hhost, -⟩ := h.listed
    rw [h.get?_parent hhost, hhost, Option.map_some, withoutChild, if_pos (hk hhost)]
  · rw [h.get?_other hr hparent]
    cases hf : page.get? x with
    | none => rfl
    | some f =>
      have hid : f.id ≠ parent := fun heq => hparent ((hk hf).symm.trans heq)
      rw [Option.map_some, withoutChild_of_ne hid]

/-- Every element but the root can be removed. -/
theorem exists_removed (hl : draft.page.Linked) (hk : draft.page.Keyed) {e : Element}
    (he : draft.page.get? id = some e) (hroot : draft.page.root ≠ some id) :
    ∃ ids parent page, Draft.remove id draft = .ok ids { draft with page := page } ∧
      Removed draft.page id parent ids page := by
  obtain ⟨ids, parent, hlist, hnodup, hmem, hplan⟩ := exists_planRemove hl hk he hroot
  obtain ⟨page, hrun, h⟩ := remove_of_planRemove hl he hlist hnodup hmem hplan
  exact ⟨ids, parent, page, hrun, removed_of_pruned hl hk he h hnodup hmem (keys_remove hrun)⟩

/-! ## Insertion and removal -/

/-- What an insertion below a parent changes and what it does not. -/
structure NewLeaf (draft : Draft) (parent kind : String) (index : Option Int) (new : String)
    (after : Draft) : Prop where
  catalog : after.catalog = draft.catalog
  ids : after.ids = { draft.ids with next := draft.ids.next + 1 }
  root : after.page.root = draft.page.root
  keys : after.page.elements.keys = draft.page.elements.keys ++ [new]
  fresh : draft.page.get? new = none
  stored : ∃ e, after.page.get? new = some e ∧ e.id = new ∧ e.kind = kind ∧ e.children = [] ∧
    e.parent = some parent
  /-- The parent lists it at the position that was asked for. -/
  listed : ∃ host children, draft.page.get? parent = some host ∧
    PutAt index new host.children children ∧
    after.page.get? parent = some { host with children := children }
  other : ∀ {x}, x ≠ new → x ≠ parent → after.page.get? x = draft.page.get? x

theorem keys_hang (page : Page) (parent : Option String) (index : Option Int) (id : String) :
    (hang page parent index id).elements.keys = page.elements.keys := by
  cases parent with
  | none => rfl
  | some parent => exact keys_modify ..

section Leaf

variable {parent kind new : String} {index : Option Int} {props style : OrderedMap Value}

theorem newLeaf_place (hl : draft.page.Linked) (hk : draft.page.Keyed)
    (ha : draft.ids.Ahead draft.page) (hhost : draft.CanHost (some parent)) :
    let placed := draft.place (fresh "" kind props style (some parent)) index
    NewLeaf draft parent kind index placed.1 placed.2 ∧ placed.2.page.Linked ∧
      placed.2.page.Keyed := by
  intro placed
  have hg : draft.page.Grafted _ (some parent) index placed.1 placed.2.page :=
    place_grafted ha index hhost
  have hd := detached_single (e := fresh placed.1 kind props style none) rfl rfl
  have hleaf := hd.get?_of_mem List.mem_cons_self
  have hfresh : draft.page.get? placed.1 = none := hg.apart hleaf
  refine ⟨⟨rfl, rfl, rfl, ?_, hfresh, ?_, ?_, ?_⟩, hl.grafted hd.linked hg,
    Keyed.grafted hk hd.keyed hg⟩
  · have hput : (hang draft.page (some parent) index placed.1).get? placed.1 = none := by
      rw [get?_hang, hfresh]
      split_ifs <;> rfl
    exact (keys_put hput).trans (congrArg (· ++ [placed.1]) (keys_hang ..))
  · exact ⟨_, hg.get?_part hleaf, by simp [fresh]⟩
  · obtain ⟨hnone, -⟩ | ⟨_, host, ⟨⟩, hstored, -⟩ := hhost
    · cases hnone
    · exact ⟨host, _, hstored, putAt_insertAt index placed.1 _, hg.get?_host hstored rfl⟩
  · intro x hnew hparent
    refine hg.get?_page ?_ fun heq => hparent (Option.some.inj heq).symm
    exact get?_ofNodes_eq_none_iff.2 fun hm => hnew (List.mem_singleton.1 hm)

theorem newLeaf_of_insert (hl : draft.page.Linked) (hk : draft.page.Keyed)
    (ha : draft.ids.Ahead draft.page)
    (h : Draft.insert (some parent) kind index props style draft = .ok new after) :
    NewLeaf draft parent kind index new after ∧ after.page.Linked ∧ after.page.Keyed := by
  rcases insert_cases draft (some parent) kind index props style with hno |
    ⟨component, kept, -, hhost, -, -, hok⟩
  · exact absurd h hno.ne_ok
  · cases hok.symm.trans h
    exact newLeaf_place hl hk ha hhost

/-- Nothing lies below an element without children. -/
theorem eq_of_reaches_leaf {page : Page} {x y : String} {e : Element} (he : page.get? x = some e)
    (hc : e.children = []) (hr : page.Reaches x y) : y = x := by
  rcases Relation.ReflTransGen.cases_head hr with heq | ⟨child, ⟨f, hf, hm⟩, -⟩
  · exact heq.symm
  · cases he.symm.trans hf
    exact absurd (hc ▸ hm) List.not_mem_nil

/-- What is left when the new element has been taken away is the page it was put into. -/
theorem NewLeaf.eq_of_removed (h : NewLeaf draft parent kind index new after)
    (hl : draft.page.Linked) (hk : draft.page.Keyed) {page : Page}
    (hremoved : Removed after.page new parent [new] page) : page = draft.page := by
  apply Page.eq_of_keys (hremoved.root.trans h.root)
  · have hnew : ∀ x ∈ draft.page.elements.keys, x ∉ [new] := by
      intro x hx hm
      obtain ⟨f, hf⟩ := mem_keys_iff_get?.1 hx
      rw [List.mem_singleton.1 hm] at hf
      exact absurd (h.fresh.symm.trans hf) (by simp)
    rw [hremoved.keys, h.keys, List.filter_append,
      List.filter_eq_self.2 fun x hx => decide_eq_true (hnew x hx)]
    simp
  · intro x
    rw [hremoved.get?_eq]
    by_cases hx : x = new
    · rw [hx, if_pos (List.mem_singleton_self new), h.fresh]
    rw [if_neg fun hm => hx (List.mem_singleton.1 hm)]
    -- Only the parent has changed, by a child that is taken away again.
    by_cases hparent : x = parent
    · subst hparent
      obtain ⟨host, children, hhost, hput, hafter⟩ := h.listed
      have hnot : new ∉ host.children := by
        intro hm
        obtain ⟨c, hc, -⟩ := hl.child_stored hhost hm
        exact absurd (h.fresh.symm.trans hc) (by simp)
      have hid : host.id = x := hk hhost
      rw [hafter, hhost, Option.map_some, withoutChild, if_pos hid, hput.erase hnot]
    · rw [h.other hx hparent]
      cases hf : draft.page.get? x with
      | none => rfl
      | some f =>
        rw [Option.map_some, withoutChild_of_ne fun heq => hparent ((hk hf).symm.trans heq)]

/-- Removing what has just been inserted leaves nothing of it but the id that is used up. -/
theorem NewLeaf.remove_eq (h : NewLeaf draft parent kind index new after)
    (hl : draft.page.Linked) (hk : draft.page.Keyed) (hl' : after.page.Linked)
    (hk' : after.page.Keyed) :
    Draft.remove new after = .ok [new] { draft with ids := after.ids } := by
  obtain ⟨e, he, -, -, hchildren, hparent⟩ := h.stored
  have hroot : after.page.root ≠ some new := by
    intro hroot
    obtain ⟨r, hr, -⟩ := hl.root_stored (h.root.symm.trans hroot)
    exact absurd (h.fresh.symm.trans hr) (by simp)
  obtain ⟨ids, old, page, hrun, hremoved⟩ := exists_removed hl' hk' he hroot
  have hids : ids = [new] := by
    apply List.perm_singleton.1
    apply (List.perm_ext_iff_of_nodup hremoved.nodup (by simp)).2
    intro x
    rw [hremoved.mem_iff, ← hl'.reaches_iff_ancestors he, List.mem_singleton]
    exact ⟨eq_of_reaches_leaf he hchildren, fun heq => heq ▸ .refl⟩
  have hold : old = parent := by
    obtain ⟨f, hf, hold⟩ := hremoved.parent_eq
    cases he.symm.trans hf
    exact Option.some.inj (hold.symm.trans hparent)
  subst hids hold
  rw [hrun, h.eq_of_removed hl hk hremoved, h.catalog]

end Leaf

/-- On a well-formed page every element but the root can be removed, and the removal takes away the
element and what it is an ancestor of, as `Removed` says.  An insertion below a parent adds one
element without children, as `NewLeaf` says, and removing that one gives the page from before; the
source of ids goes on. -/
theorem remove_exact_and_undoes_insert (hk : draft.page.Keyed) (ht : draft.page.IsTree)
    (ha : draft.ids.Ahead draft.page) :
    (∀ {id e}, draft.page.get? id = some e → draft.page.root ≠ some id →
      ∃ ids parent page, Draft.remove id draft = .ok ids { draft with page := page } ∧
        Removed draft.page id parent ids page) ∧
    ∀ {parent kind index props style new after},
      Draft.insert (some parent) kind index props style draft = .ok new after →
        NewLeaf draft parent kind index new after ∧
          Draft.remove new after = .ok [new] { draft with ids := after.ids } := by
  refine ⟨fun he hroot => exists_removed ht.linked hk he hroot, fun h => ?_⟩
  obtain ⟨hleaf, hl', hk'⟩ := newLeaf_of_insert ht.linked hk ha h
  exact ⟨hleaf, hleaf.remove_eq ht.linked hk hl' hk'⟩

/-- The inner container is removed with its text; a text put before that one is removed again. -/
theorem remove_exact_and_undoes_insert_nested :
    let draft : Draft := ⟨.builtIn, { next := 5 }, nested⟩
    (∃ ids parent page, Draft.remove "el_3" draft = .ok ids { draft with page := page } ∧
      Removed nested "el_3" parent ids page) ∧
    ∃ new after, Draft.insert (some "el_3") "text" (some 0) .empty .empty draft = .ok new after ∧
      NewLeaf draft "el_3" "text" (some 0) new after ∧
      Draft.remove new after = .ok [new] { draft with ids := after.ids } := by
  intro draft
  have hdraft : Draft.ofPage .builtIn {} nested = .ok draft := by decide +kernel
  have hahead : draft.ids.Ahead nested := ahead_of_ofPage (by decide) hdraft
  obtain ⟨hremove, hinsert⟩ := @remove_exact_and_undoes_insert draft nested_wellFormed.keyed
    nested_wellFormed.isTree hahead
  have hok : Results.succeeds (Draft.insert (some "el_3") "text" (some 0) .empty .empty draft)
      (fun _ _ => true) = true := by
    decide +kernel
  obtain ⟨new, after, hrun, -⟩ := Results.exists_of_succeeds hok
  have hstored : nested.get? "el_3" =
      some ⟨"el_3", "container", .empty, .empty, ["el_4"], some "el_1"⟩ := by
    decide +kernel
  exact ⟨hremove hstored (by decide), new, after, hrun, hinsert hrun⟩

end Draft

end PageBuilder
