import PageBuilder.Proofs.Draft.Growth
import PageBuilder.Proofs.Draft.Edits
import PageBuilder.Proofs.Page.Admission
import PageBuilder.Proofs.Page.Attributes
import PageBuilder.Proofs.Page.Walks

/-!
# What edits keep of single elements

An edit changes what elements say in few ways: it layers checked props or style attributes over what
is there, it starts a new element from the defaults of its kind, and it copies elements as they are.
Everything else it does is done to links.  So a property of elements that survives these
(`Element.Kept`) holds of all elements of a page after every edit if it held before
(`Edit.run_every`), on whatever page and whether the edit is carried out or not.
-/

namespace PageBuilder

open Results

/-- A property of what elements say that edits of drafts with a catalog do not take away. -/
structure Element.Kept (catalog : Catalog) (good : Element → Prop) : Prop where
  /-- Id and links do not count. -/
  relinked : ∀ {e f : Element}, good e → f.kind = e.kind → f.props = e.props →
    f.style = e.style → good f
  props : ∀ {e : Element} {props : OrderedMap Value}, good e → Props.check props = .ok () →
    good { e with props := overlay e.props props }
  style : ∀ {e : Element} {style kept : OrderedMap Value}, good e → Style.check style = .ok kept →
    good { e with style := overlay e.style kept }
  inserted : ∀ {kind : String} {component : Component} {props style kept : OrderedMap Value}
    (parent : Option String), catalog.get? kind = some component → Props.check props = .ok () →
    Style.check style = .ok kept →
    good ⟨"", kind, overlay component.props props, overlay component.style kept, [], parent⟩

namespace Page

variable {page : Page} {good : Element → Prop}

/-- Every element has a property. -/
def Every (good : Element → Prop) (page : Page) : Prop :=
  ∀ id e, page.get? id = some e → good e

theorem every_empty : ({} : Page).Every good := by
  intro id e he
  cases he

theorem Every.modify (h : page.Every good) {id : String} {f : Element → Element}
    (hf : ∀ {e : Element}, good e → good (f e)) : (page.modify id f).Every good := by
  intro x g hg
  obtain ⟨e, he, rfl | rfl⟩ := exists_of_modify hg
  · exact hf (h _ _ he)
  · exact h _ _ he

theorem Every.delete (h : page.Every good) (id : String) : (page.delete id).Every good := by
  intro x e he
  rw [get?_delete] at he
  split at he
  · cases he
  · exact h _ _ he

theorem Every.foldl_delete (h : page.Every good) (ids : List String) :
    (ids.foldl Page.delete page).Every good := by
  induction ids generalizing page with
  | nil => exact h
  | cons id rest ih => exact ih (h.delete id)

theorem Every.foldl_put (h : page.Every good) {nodes : List Element}
    (hn : ∀ node ∈ nodes, good node) : (nodes.foldl put page).Every good := by
  intro x e he
  rw [get?_foldl_put] at he
  cases hx : (ofNodes nodes).get? x with
  | none =>
    rw [hx] at he
    exact h _ _ he
  | some f =>
    rw [hx] at he
    cases he
    have hm := OrderedMap.mem_of_get?_ofList hx
    obtain ⟨node, hnode, heq⟩ := List.mem_map.1 hm
    cases heq
    exact hn _ hnode

section Links

variable (hrelinked : ∀ {e f : Element}, good e → f.kind = e.kind → f.props = e.props →
  f.style = e.style → good f)

include hrelinked

theorem Every.addChild (h : page.Every good) (parent : String) (index : Option Int)
    (child : String) : (page.addChild parent index child).Every good :=
  h.modify fun he => hrelinked he rfl rfl rfl

theorem Every.dropChild (h : page.Every good) (parent child : String) :
    (page.dropChild parent child).Every good :=
  h.modify fun he => hrelinked he rfl rfl rfl

theorem Every.hang (h : page.Every good) (parent : Option String) (index : Option Int)
    (id : String) : (Draft.hang page parent index id).Every good := by
  cases parent with
  | none => exact h
  | some parent => exact h.addChild hrelinked parent index id

end Links

end Page

namespace Draft

open Page

variable {draft : Draft} {good : Element → Prop} (hkept : Element.Kept draft.catalog good)

/-! ## Copies -/

/-- A copied element is one of the page, but for its parent. -/
theorem exists_of_copied {id : String} {nodes : List Element} (h : draft.copy id = .ok nodes)
    {node : Element} (hm : node ∈ nodes) :
    ∃ x e, draft.page.get? x = some e ∧ node = { e with parent := node.parent } := by
  obtain ⟨_, -, h⟩ := exists_of_bind h
  obtain ⟨es, htraverse, h⟩ := exists_of_bind h
  have hes : ∀ e ∈ es, ∃ x, draft.page.get? x = some e := by
    obtain ⟨seen, hwalk, rfl⟩ := exists_of_map htraverse
    have hseen := walk_keeps (fun seen => ∀ e ∈ seen, ∃ x, draft.page.get? x = some e)
      (fun he hok hgood => by
        cases hok
        exact List.forall_mem_cons.2 ⟨⟨_, he⟩, hgood⟩) hwalk (by simp)
    exact fun e he => hseen e (List.mem_reverse.1 he)
  cases es with
  | nil =>
    cases h
    cases hm
  | cons e rest =>
    cases h
    rcases List.mem_cons.1 hm with rfl | hm
    · obtain ⟨x, hx⟩ := hes e List.mem_cons_self
      exact ⟨x, e, hx, rfl⟩
    · obtain ⟨x, hx⟩ := hes node (List.mem_cons_of_mem _ hm)
      exact ⟨x, node, hx, rfl⟩

include hkept

theorem copy_every (h : draft.page.Every good) {id : String} {nodes : List Element}
    (hcopy : draft.copy id = .ok nodes) : ∀ node ∈ nodes, good node := by
  intro node hm
  obtain ⟨x, e, he, heq⟩ := exists_of_copied hcopy hm
  rw [heq]
  exact hkept.relinked (h x e he) rfl rfl rfl

/-! ## Edits -/

theorem planInsert_good {parent : Option String} {kind : String} {props style : OrderedMap Value}
    {e : Element} (hplan : draft.planInsert parent kind props style = .ok e) : good e := by
  obtain ⟨component, kept, hcomponent, -, hprops, hstyle, -, rfl⟩ := exists_of_planInsert hplan
  exact hkept.inserted parent (Catalog.require_eq_ok_iff.1 hcomponent)
    (checkProps_eq_ok_iff.1 hprops) (checkStyle_eq_ok_iff.1 hstyle)

/-- What holds of every element of the page, and of those that are attached, holds of every element
after an edit. -/
theorem Edit.run_every (h : draft.page.Every good) {edit : Edit}
    (hedit : ∀ {parent nodes index}, edit = .attach parent nodes index →
      ∀ node ∈ nodes, good node) : (stateOf (edit.run draft)).page.Every good := by
  have houtcome := edit.run_outcome draft
  generalize edit.run draft = result at houtcome ⊢
  cases houtcome with
  | declined | stalled => exact h
  | @inserted _ _ index _ _ e hplan =>
    have hdrawn : ∀ f ∈ [{ e with id := (draft.ids.draw).1 }], good f :=
      List.forall_mem_singleton.2 (hkept.relinked (planInsert_good hkept hplan) rfl rfl rfl)
    exact Every.foldl_put (h.hang hkept.relinked e.parent index _) hdrawn
  | moved =>
    exact ((h.dropChild hkept.relinked _ _).addChild hkept.relinked _ _ _).modify fun he =>
      hkept.relinked he rfl rfl rfl
  | propsSet hprops => exact h.modify fun he => hkept.props he (checkProps_eq_ok_iff.1 hprops)
  | styleSet hstyle => exact h.modify fun he => hkept.style he (checkStyle_eq_ok_iff.1 hstyle)
  | removed | halted => exact (h.dropChild hkept.relinked _ _).foldl_delete _
  | cleared => exact every_empty
  | @attached parent nodes index =>
    refine (h.hang hkept.relinked parent index _).foldl_put fun node hm => ?_
    obtain ⟨copied, hcopied, rfl⟩ := List.mem_map.1 hm
    exact hkept.relinked (hedit rfl copied hcopied) rfl rfl rfl

end Draft

end PageBuilder
