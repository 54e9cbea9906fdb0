import PageBuilder.Proofs.Draft.Vocabulary
import PageBuilder.Proofs.Maps
import PageBuilder.Proofs.Page.Admission
import PageBuilder.Proofs.Page.Context
import PageBuilder.Proofs.Page.Positions
import PageBuilder.Proofs.Page.Survey

/-!
# A move and the move back

A move touches three elements at most: the one that is moved, the parent it leaves and the one it
comes to, and the last two may be the same.  What stands in their lists is said by one rule for all
of them (`Rehung.get?_erased`): the id is taken out of every list and put into that of the new
parent.  The position is counted after that, on the way there and on the way back, so that moving
an element back to the number of siblings that stood before it gives the page it was taken from.
-/

namespace PageBuilder

namespace Page

variable {page result : Page} {id old target : String} {index : Option Int}

/-! ## Lists of children without the moved element -/

/-- An element stands in the list of its parent only. -/
theorem Linked.erase_children (hl : page.Linked) (hlist : page.Lists old id) {x : String}
    {e : Element} (he : page.get? x = some e) (hx : x ≠ old) : e.children.erase id = e.children :=
  List.erase_of_not_mem fun hm => hx (hl.lists_unique ⟨e, he, hm⟩ hlist)

theorem Rehung.get?_erased (hl : page.Linked) (h : page.Rehung id old target index result)
    {x : String} {e : Element} (he : page.get? x = some e) (hx : x ≠ id) :
    result.get? x = some { e with
      children := if x = target then insertAt index id (e.children.erase id)
        else e.children.erase id } := by
  have hlist : (if x = old then e.children.erase id else e.children) = e.children.erase id := by
    split_ifs with hold
    · rfl
    · exact (hl.erase_children h.listed he hold).symm
  rw [h.get?_other he hx, hlist]

theorem Rehung.target_ne (h : page.Rehung id old target index result) : target ≠ id :=
  fun heq => h.not_below (heq ▸ .refl)

theorem Rehung.old_ne (hl : page.Linked) (h : page.Rehung id old target index result) :
    old ≠ id :=
  fun heq => hl.not_reaches_of_lists h.listed (heq ▸ .refl)

/-- The moved element stands in the list of its new parent. -/
theorem Rehung.lists_target (hl : page.Linked) (h : page.Rehung id old target index result) :
    result.Lists target id := by
  obtain ⟨host, hhost⟩ := h.target_stored
  refine ⟨_, h.get?_erased hl hhost h.target_ne, ?_⟩
  rw [if_pos rfl]
  exact mem_insertAt.2 (Or.inl rfl)

/-! ## What is moved along -/

/-- Below the moved element nothing changes. -/
theorem Rehung.drawn (hl : page.Linked) (h : page.Rehung id old target index result)
    {e : Element} {below : List Outline} (hid : e.id = id)
    (hd : (Outline.node e below).DrawnFrom page) :
    (Outline.node { e with parent := some target } below).DrawnFrom result := by
  have hnode := hd
  obtain ⟨he, hchildren, hall⟩ := hnode
  refine ⟨?_, hchildren, hall.congr fun x hx => ?_⟩
  · rw [hid] at he
    simpa only [hid] using h.get?_moved he
  · obtain ⟨hget, hne⟩ := stored_of_mem_preorders hl hd hx
    have hreach : page.Reaches id x.id := by
      have hmem : x ∈ (Outline.node e below).preorder := List.mem_cons_of_mem _ hx
      rw [← hid]
      exact (Outline.drawn_of_mem_preorder hl hd hmem).2
    have hold : x.id ≠ old := fun heq => hl.not_reaches_of_lists h.listed (heq ▸ hreach)
    have htarget : x.id ≠ target := fun heq => h.not_below (heq ▸ hreach)
    rw [h.get?_other hget (hid ▸ hne), if_neg hold, if_neg htarget]

theorem Rehung.traverse_eq (hl : page.Linked) (hk : page.Keyed)
    (h : page.Rehung id old target index result) {e : Element} (he : page.get? id = some e) :
    ∃ below, page.traverse (some id) = .ok (e :: below) ∧
      result.traverse (some id) = .ok ({ e with parent := some target } :: below) := by
  obtain ⟨⟨e, below⟩, hd, rfl, ht⟩ := hl.traverse_eq hk he
  obtain rfl : e.id = id := hk he
  exact ⟨Outline.preorders below, ht,
    (hl.rehung h).traverse_of_drawnFrom (Keyed.rehung hk h) (h.drawn hl rfl hd)⟩

/-- The moved element reaches what it reached before. -/
theorem Rehung.reaches_iff (hl : page.Linked) (hk : page.Keyed)
    (h : page.Rehung id old target index result) {x : String} :
    result.Reaches id x ↔ page.Reaches id x := by
  obtain ⟨m, hm⟩ := h.exists_moved hl
  obtain ⟨⟨e, below⟩, hd, rfl, -⟩ := hl.exists_outline hk hm
  have hid : e.id = id := hk hm
  have hbefore := @Outline.mem_ids_preorder_iff _ hl _ hd x
  have hafter := @Outline.mem_ids_preorder_iff _ (hl.rehung h) _ (h.drawn hl hid hd) x
  rw [Outline.top_node, hid] at hbefore
  rw [Outline.top_node, hid] at hafter
  rw [← hbefore, ← hafter]
  simp only [Outline.preorder, List.map_cons, hid]

/-! ## The way back -/

/-- Two moves, there and back to the place that was left, cancel each other. -/
theorem Rehung.get?_back (hl : page.Linked) (h : page.Rehung id old target index result)
    {host : Element} {left right : List String} (hhost : page.get? old = some host)
    (hplace : host.children = left ++ id :: right) {back : Page}
    (hb : result.Rehung id target old (some left.length) back) (x : String) :
    back.get? x = page.get? x := by
  cases he : page.get? x with
  | none => exact hb.get?_none (h.get?_none he)
  | some e =>
    by_cases hx : x = id
    · subst hx
      have hparent := hl.parent_of_lists h.listed he
      rw [hb.get?_moved (h.get?_moved he), ← hparent]
    · have hn := hl.nodup_children he
      have hnot : id ∉ e.children.erase id := hn.not_mem_erase
      rw [hb.get?_erased (hl.rehung h) (h.get?_erased hl he hx) hx]
      -- Whatever the first move has put in, the second one takes out again.
      have herase : (if x = target then insertAt index id (e.children.erase id)
          else e.children.erase id).erase id = e.children.erase id := by
        split_ifs
        · exact erase_insertAt hnot
        · exact List.erase_of_not_mem hnot
      rw [herase]
      by_cases hold : x = old
      · subst hold
        cases he.symm.trans hhost
        have hleft : id ∉ left := by
          rw [hplace] at hn
          exact fun hm => (List.nodup_append.1 hn).2.2 _ hm _ List.mem_cons_self rfl
        rw [if_pos rfl, hplace, insertAt_erase hleft, ← hplace]
      · rw [if_neg hold, hl.erase_children h.listed he hold]

end Page

namespace Draft

open Page

variable {draft after : Draft} {id target : String} {index : Option Int}

/-- A move keeps elements where they are in the map. -/
theorem keys_move (h : Draft.move id target index draft = .ok () after) :
    after.page.elements.keys = draft.page.elements.keys := by
  unfold Draft.move at h
  split at h
  · cases h
  · cases h
    simp only [rehang, addChild, dropChild, keys_modify]

/-- What a move changes and what it does not. -/
structure Relocated (page : Page) (id old target : String) (index : Option Int)
    (result : Page) : Prop where
  root : result.root = page.root
  keys : result.elements.keys = page.elements.keys
  /-- The element has a new parent. -/
  moved : ∃ e, page.get? id = some e ∧ e.parent = some old ∧
    result.get? id = some { e with parent := some target }
  /-- The new parent lists it where it was asked for, counted among the other children. -/
  hung : ∃ host children, page.get? target = some host ∧
    PutAt index id (host.children.erase id) children ∧
    result.get? target = some { host with children := children }
  /-- The old parent lists it no more, unless that is the new one. -/
  left : old ≠ target → ∃ host, page.get? old = some host ∧
    result.get? old = some { host with children := host.children.erase id }
  other : ∀ {x}, x ≠ id → x ≠ target → x ≠ old → result.get? x = page.get? x
  /-- What lies below it is moved along, as it was. -/
  traverse : ∃ e below, page.traverse (some id) = .ok (e :: below) ∧
    result.traverse (some id) = .ok ({ e with parent := some target } :: below)

theorem relocated_of_rehung {page result : Page} {old : String} (hl : page.Linked) (hk : page.Keyed)
    (h : page.Rehung id old target index result)
    (hkeys : result.elements.keys = page.elements.keys) :
    Relocated page id old target index result := by
  obtain ⟨e, he⟩ := h.exists_moved hl
  refine ⟨h.root, hkeys, ⟨e, he, hl.parent_of_lists h.listed he, h.get?_moved he⟩, ?_, ?_, ?_, ?_⟩
  · obtain ⟨host, hhost⟩ := h.target_stored
    refine ⟨host, _, hhost, putAt_insertAt index id _, ?_⟩
    rw [h.get?_erased hl hhost h.target_ne, if_pos rfl]
  · intro hne
    obtain ⟨host, hhost, -⟩ := h.listed
    refine ⟨host, hhost, ?_⟩
    rw [h.get?_erased hl hhost (h.old_ne hl), if_neg hne]
  · intro x hid htarget hold
    cases hx : page.get? x with
    | none => exact h.get?_none hx
    | some f => rw [h.get?_other hx hid, if_neg hold, if_neg htarget]
  · obtain ⟨below, hbefore, hafter⟩ := h.traverse_eq hl hk he
    exact ⟨e, below, hbefore, hafter⟩

/-- An element can be moved back to any place it has been moved away from. -/
theorem exists_move_back {old : String} (hl : draft.page.Linked) (hk : draft.page.Keyed)
    (hcatalog : after.catalog = draft.catalog)
    (h : draft.page.Rehung id old target index after.page) {host : Element}
    (hhost : draft.page.get? old = some host)
    (hholds : draft.catalog.isContainer host.kind = true) (index' : Option Int) :
    ∃ back, Draft.move id old index' after = .ok () back ∧ back.catalog = draft.catalog ∧
      back.ids = after.ids ∧ after.page.Rehung id target old index' back.page := by
  have hl' := hl.rehung h
  have haccepts : after.Accepts (Draft.move id old index') := by
    refine ((heeds_catalog after).move hl').2 ⟨?_, ?_, ?_, _,
      h.get?_erased hl hhost (h.old_ne hl), ?_⟩
    · obtain ⟨e, he⟩ := h.exists_moved hl
      exact contains_iff_get?.2 ⟨_, h.get?_moved he⟩
    · intro hroot
      obtain ⟨e, he, hnone⟩ := hl'.root_stored hroot
      have hparent := hl'.parent_of_lists (h.lists_target hl) he
      exact absurd (hnone.symm.trans hparent) (by simp)
    · rw [h.reaches_iff hl hk]
      exact hl.not_reaches_of_lists h.listed
    · rw [hcatalog]
      exact hholds
  obtain ⟨⟨⟩, back, hback⟩ := haccepts
  rcases move_cases hl' id old index' with hno | ⟨old', _, _, hok, -, -, hc, hids, hb⟩
  · exact absurd hback hno.ne_ok
  · cases hok.symm.trans hback
    cases hl'.lists_unique hb.listed (h.lists_target hl)
    exact ⟨back, hback, hc.trans hcatalog, hids, hb⟩

/-- On a well-formed page of known kinds an element can be moved exactly if it is stored and not the
root, below a stored element that holds children and neither is the element nor lies below it.  The
element, what it leaves and what it comes to change as `Relocated` says, nothing else does, and
moving the element back to where it stood gives the draft from before. -/
theorem move_relocates (hk : draft.page.Keyed)
    (hproblems : draft.page.problems draft.catalog true = []) (id target : String)
    (index : Option Int) :
    (draft.Accepts (Draft.move id target index) ↔
      draft.page.contains id = true ∧ draft.page.root ≠ some id ∧ ¬ draft.page.Reaches id target ∧
        ∃ host, draft.page.get? target = some host ∧
          draft.catalog.isContainer host.kind = true) ∧
    ∀ {after}, Draft.move id target index draft = .ok () after →
      after.catalog = draft.catalog ∧ after.ids = draft.ids ∧
      ∃ old, Relocated draft.page id old target index after.page ∧
        ∃ host left right, draft.page.get? old = some host ∧
          host.children = left ++ id :: right ∧
          Draft.move id old (some left.length) after = .ok () draft := by
  obtain ⟨htree, hadmits⟩ := problems_eq_nil_iff.1 hproblems
  have hl := htree.linked
  refine ⟨(heeds_catalog draft).move hl, fun {after} hmove => ?_⟩
  rcases move_cases hl id target index with hno | ⟨old, _, _, hok, -, -, hcatalog, hids, h⟩
  · exact absurd hmove hno.ne_ok
  cases hok.symm.trans hmove
  have hkeys := keys_move hmove
  refine ⟨hcatalog, hids, old, relocated_of_rehung hl hk h hkeys, ?_⟩
  obtain ⟨host, hhost, hm⟩ := h.listed
  obtain ⟨left, right, hplace⟩ := List.append_of_mem hm
  -- The old parent is of a known kind and has a child, so its kind holds children.
  have hadmitted := hadmits hhost
  have hholds := hadmitted.holds_children (hadmitted.kind_known rfl) (List.ne_nil_of_mem hm)
  obtain ⟨back, hback, hcatalog', hids', hb⟩ :=
    exists_move_back hl hk hcatalog h hhost hholds (some left.length)
  have hpage : back.page = draft.page :=
    Page.eq_of_keys (hb.root.trans h.root) ((keys_move hback).trans hkeys)
      (h.get?_back hl hhost hplace hb)
  have heq : back = draft := by
    have hids := hids'.trans hids
    cases back
    cases draft
    cases hcatalog'
    cases hids
    cases hpage
    rfl
  exact ⟨host, left, right, hhost, hplace, heq ▸ hback⟩

/-- The text goes into the container beside it, and back to the place it had. -/
theorem move_relocates_nested :
    let draft : Draft := ⟨.builtIn, {}, nested⟩
    ∃ after old left, Draft.move "el_2" "el_3" (some 0) draft = .ok () after ∧
      Relocated nested "el_2" old "el_3" (some 0) after.page ∧
      Draft.move "el_2" old (some (left : Nat)) after = .ok () draft := by
  intro draft
  have hok : Results.succeeds (Draft.move "el_2" "el_3" (some 0) draft)
      (fun _ _ => true) = true := by
    decide +kernel
  obtain ⟨⟨⟩, after, hmove, -⟩ := Results.exists_of_succeeds hok
  obtain ⟨-, -, old, hrelocated, -, left, -, -, -, hback⟩ :=
    (@move_relocates draft nested_wellFormed.keyed (by decide +kernel) "el_2" "el_3" (some 0)).2
      hmove
  exact ⟨after, old, left.length, hmove, hrelocated, hback⟩

end Draft

end PageBuilder
