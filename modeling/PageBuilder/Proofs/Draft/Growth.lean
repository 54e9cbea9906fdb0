import PageBuilder.Proofs.Draft.Copies
import PageBuilder.Proofs.Draft.Outcomes

/-!
# What edits add to a page

An edit of a tree is carried out or turned down, unless the ids do not last.  On a page that never
passed the checks it may also fail half-way.  `Grows` is what holds in all of these cases: the
source of ids does not go back, and every id of the page was there before or has just been handed
out.  So a page all of whose ids make sense to the source stays one (`Advances`), and nothing more
is needed to edit it in another draft.
-/

namespace PageBuilder

namespace Page

theorem contains_modify (page : Page) (id x : String) (f : Element → Element) :
    (page.modify id f).contains x = page.contains x := by
  rw [Bool.eq_iff_iff, contains_iff_get?, contains_iff_get?, get?_modify]
  split
  · cases page.get? x <;> simp
  · rfl

theorem contains_hang (page : Page) (parent : Option String) (index : Option Int)
    (id x : String) : (Draft.hang page parent index id).contains x = page.contains x := by
  cases parent with
  | none => rfl
  | some parent => exact contains_modify page parent x _

theorem contains_delete_iff {page : Page} {id x : String} :
    (page.delete id).contains x = true ↔ x ≠ id ∧ page.contains x = true := by
  rw [contains_iff_get?, contains_iff_get?, get?_delete]
  split <;> simp [*]

theorem contains_foldl_delete_iff {page : Page} {ids : List String} {x : String} :
    (ids.foldl delete page).contains x = true ↔ x ∉ ids ∧ page.contains x = true := by
  induction ids generalizing page with
  | nil => simp
  | cons id rest ih => simp [ih, contains_delete_iff, and_assoc, and_left_comm]

/-- Ids of a page to which elements are put are those of the page and of the elements. -/
theorem contains_foldl_put_iff {page : Page} {nodes : List Element} {x : String} :
    (nodes.foldl put page).contains x = true ↔
      page.contains x = true ∨ x ∈ nodes.map Element.id := by
  rw [contains_iff_get?, contains_iff_get?, get?_foldl_put]
  cases hn : (ofNodes nodes).get? x with
  | none => simp [get?_ofNodes_eq_none_iff.1 hn]
  | some f =>
    have hx : x ∈ nodes.map Element.id := by
      by_contra hx
      rw [get?_ofNodes_eq_none_iff.2 hx] at hn
      cases hn
    simp [hx]

end Page

namespace Draft

open Page Results

variable {draft before after : Draft}

/-- Every id of the page makes sense to the source. -/
structure Legible (draft : Draft) : Prop where
  next_nonneg : 0 ≤ draft.ids.next
  reads : ∀ {id}, draft.page.contains id = true → draft.ids.Reads id

/-- The source of ids has not gone back, and goes on to make sense of the page. -/
structure Advances (before after : Draft) : Prop where
  stem : after.ids.stem = before.ids.stem
  next_le : before.ids.next ≤ after.ids.next
  legible : before.Legible → after.Legible

theorem Advances.refl (draft : Draft) : Advances draft draft :=
  ⟨rfl, Int.le_refl _, id⟩

theorem Advances.trans {middle : Draft} (h : Advances before middle)
    (h' : Advances middle after) : Advances before after :=
  ⟨h'.stem.trans h.stem, Int.le_trans h.next_le h'.next_le, h'.legible ∘ h.legible⟩

/-- The draft of a page that the source makes sense of. -/
theorem ofPage_advances {catalog : Catalog} {page : Page}
    (h : Draft.ofPage catalog before.ids page = .ok after) : Advances before after := by
  obtain ⟨ids, hids, rfl⟩ := IdSource.exists_of_ofPage h
  obtain ⟨hstem, hle, hall⟩ := IdSource.advancePast_ok hids
  refine ⟨hstem, hle, fun hb => ⟨Int.le_trans hb.next_nonneg hle, fun {id} hc => ?_⟩⟩
  rw [IdSource.reads_congr hstem]
  exact (hall id ((page.elements.contains_iff id).1 hc)).1

/-- The page has only ids that it had before or that were handed out in between. -/
structure Grows (before after : Draft) : Prop where
  stem : after.ids.stem = before.ids.stem
  next_le : before.ids.next ≤ after.ids.next
  contains : ∀ {id}, after.page.contains id = true →
    before.page.contains id = true ∨ before.ids.HandedOut after.ids id
  /-- New ids can be read again, as they could be written. -/
  reads : before.Legible → ∀ {id}, after.page.contains id = true → before.ids.Reads id

theorem Grows.refl (draft : Draft) : Grows draft draft :=
  ⟨rfl, Int.le_refl _, Or.inl, fun hb => hb.reads⟩

theorem Grows.advances (h : Grows before after) : Advances before after := by
  refine ⟨h.stem, h.next_le, fun hb => ⟨Int.le_trans hb.next_nonneg h.next_le, fun {id} hc => ?_⟩⟩
  rw [IdSource.reads_congr h.stem]
  exact h.reads hb hc

/-- A draft that no id has been added to. -/
theorem grows_of_contains (hids : after.ids = before.ids)
    (h : ∀ {id}, after.page.contains id = true → before.page.contains id = true) :
    Grows before after :=
  ⟨by rw [hids], Int.le_of_eq (by rw [hids]), fun hc => Or.inl (h hc),
    fun hb _ hc => hb.reads (h hc)⟩

/-- A draft whose new ids have all been drawn, from a source that lasts. -/
theorem grows_of_drawn {count : Nat} (hlast : before.ids.exhausted? count = none)
    (hids : after.ids = (IdSource.drawMany count before.ids).2)
    (h : ∀ {id}, after.page.contains id = true →
      before.page.contains id = true ∨ id ∈ (IdSource.drawMany count before.ids).1) :
    Grows before after := by
  refine ⟨?_, ?_, fun hc => ?_, fun hb {id} hc => ?_⟩
  · rw [hids, IdSource.drawMany_eq]
  · rw [hids, IdSource.drawMany_eq]
    simp only
    omega
  · rw [hids]
    exact (h hc).imp_right IdSource.handedOut_drawMany_iff.2
  · rcases h hc with hc | hm
    · exact hb.reads hc
    · exact IdSource.reads_of_mem_drawMany hb.next_nonneg hlast hm

/-! ## Sources that stay ahead -/

section Ahead

variable {page : Page}

theorem Advances.ahead (h : Advances before after) (ha : before.ids.Ahead page) :
    after.ids.Ahead page :=
  ha.mono h.stem h.next_le fun _ => Or.inl

theorem Grows.ahead (h : Grows before after) (ha : before.ids.Ahead before.page) :
    after.ids.Ahead after.page := by
  refine ha.mono h.stem h.next_le fun id hc => ?_
  rcases h.contains hc with hc | ⟨n, hle, hlt, rfl⟩
  · exact Or.inl hc
  · obtain ⟨m, rfl⟩ := Int.eq_ofNat_of_zero_le (Int.le_trans ha.next_nonneg hle)
    exact Or.inr ⟨m, rfl, hlt⟩

/-- A draft made of a page is ahead of it. -/
theorem ahead_of_ofPage {catalog : Catalog} {ids : IdSource} (hn : 0 ≤ ids.next)
    (h : Draft.ofPage catalog ids page = .ok after) : after.ids.Ahead page := by
  obtain ⟨source, hsource, rfl⟩ := IdSource.exists_of_ofPage h
  exact IdSource.ahead_of_advancePast hn hsource

end Ahead

/-! ## Edits -/

/-- A new element gets the next id. -/
theorem place_grows (hlast : draft.ids.exhausted? 1 = none) (e : Element) (index : Option Int) :
    Grows draft (draft.place e index).2 := by
  refine grows_of_drawn hlast rfl fun {id} hc => ?_
  obtain hc | hm := (@contains_foldl_put_iff _ [{ e with id := (draft.ids.draw).1 }] id).1 hc
  · rw [contains_hang] at hc
    exact Or.inl hc
  · exact Or.inr hm

/-- The elements of a copy all get a name that has been drawn, whatever they are. -/
theorem placeCopy_grows (parent : Option String) {nodes : List Element} (index : Option Int)
    (hlast : draft.ids.exhausted? nodes.length = none) :
    Grows draft (draft.placeCopy parent nodes index).2 := by
  refine grows_of_drawn hlast rfl fun {id} hc => ?_
  rcases contains_foldl_put_iff.1 hc with hc | hm
  · rw [contains_hang] at hc
    exact Or.inl hc
  · right
    rw [List.map_map] at hm
    obtain ⟨node, hnode, rfl⟩ := List.mem_map.1 hm
    have hlen : (IdSource.drawMany nodes.length draft.ids).1.length = nodes.length := by
      simp [IdSource.drawMany_eq]
    obtain ⟨new, hnew, hname⟩ := exists_newName hlen (List.mem_map_of_mem hnode)
    simpa [renamed, hname] using hnew

/-- Ids that did not last have been taken, and nothing else has happened. -/
theorem grows_of_exhausted {count : Nat} {ids : IdSource}
    (h : draft.ids.exhausted? count = some ids) : Grows draft { draft with ids := ids } := by
  obtain ⟨i, -, rfl, -⟩ := IdSource.exhausted?_eq_some h
  exact ⟨rfl, by simp only; omega, Or.inl, fun hb => hb.reads⟩

theorem Edit.run_grows (edit : Edit) (draft : Draft) :
    Grows draft (stateOf (edit.run draft)) := by
  have houtcome := edit.run_outcome draft
  generalize edit.run draft = result at houtcome ⊢
  cases houtcome with
  | declined => exact .refl draft
  | inserted hplan =>
    obtain ⟨-, -, -, -, -, -, hlast, -⟩ := exists_of_planInsert hplan
    exact place_grows hlast ..
  | moved | propsSet | styleSet =>
    refine grows_of_contains rfl fun hc => ?_
    simpa only [stateOf, rehang, addChild, dropChild, contains_modify] using hc
  | removed | halted =>
    refine grows_of_contains rfl fun hc => ?_
    have hdropped := (contains_foldl_delete_iff.1 hc).2
    simpa only [dropChild, contains_modify] using hdropped
  | cleared =>
    refine grows_of_contains rfl fun hc => ?_
    cases hc
  | attached _ hids => exact placeCopy_grows _ _ hids
  | stalled _ hids => exact grows_of_exhausted hids

/-! ## New ids -/

/-- How many ids an edit draws when it is carried out. -/
def Edit.draws : Edit → Nat
  | .insert .. => 1
  | .attach _ nodes _ => nodes.length
  | _ => 0

/-- The ids of the new elements of an edit that is carried out. -/
def Edit.drawn (edit : Edit) (draft : Draft) : List String :=
  (IdSource.drawMany edit.draws draft.ids).1

section Run

variable {edit : Edit} {effect : Effect} {failure : Failure}

theorem Edit.grows_of_run (h : edit.run draft = .ok effect after) : Grows draft after := by
  have hgrows := edit.run_grows draft
  rwa [h] at hgrows

theorem Edit.grows_of_failed (h : edit.run draft = .error failure after) : Grows draft after := by
  have hgrows := edit.run_grows draft
  rwa [h] at hgrows

/-- An edit that is carried out has drawn its ids. -/
theorem Edit.ids_of_run (h : edit.run draft = .ok effect after) :
    after.ids = (IdSource.drawMany edit.draws draft.ids).2 := by
  have houtcome := edit.run_outcome draft
  rw [h] at houtcome
  cases houtcome <;> rfl

/-- An edit is carried out if the ids last for it only. -/
theorem Edit.lasts_of_run (h : edit.run draft = .ok effect after) :
    draft.ids.exhausted? edit.draws = none := by
  have houtcome := edit.run_outcome draft
  rw [h] at houtcome
  cases houtcome with
  | inserted hplan =>
    obtain ⟨-, -, -, -, -, -, hlast, -⟩ := exists_of_planInsert hplan
    exact hlast
  | attached _ hids => exact hids
  | moved | propsSet | styleSet | removed | cleared => rfl

/-- An edit that fails has drawn none, unless the ids did not last. -/
theorem Edit.ids_of_failed (h : edit.run draft = .error failure after) :
    after.ids = draft.ids ∨
      draft.ids.exhausted? edit.draws = some after.ids ∧ after.page = draft.page := by
  have houtcome := edit.run_outcome draft
  rw [h] at houtcome
  cases houtcome with
  | declined | halted => exact Or.inl rfl
  | stalled _ hids => exact Or.inr ⟨hids, rfl⟩

/-- Every id of the page was there before or has been drawn. -/
theorem Edit.contains_of_run (h : edit.run draft = .ok effect after) {id : String}
    (hc : after.page.contains id = true) :
    draft.page.contains id = true ∨ id ∈ edit.drawn draft := by
  refine ((Edit.grows_of_run h).contains hc).imp_right fun hid => ?_
  rw [Edit.ids_of_run h] at hid
  exact IdSource.handedOut_drawMany_iff.1 hid

theorem Edit.contains_of_failed (h : edit.run draft = .error failure after) {id : String}
    (hc : after.page.contains id = true) : draft.page.contains id = true := by
  rcases Edit.ids_of_failed h with hids | ⟨-, hpage⟩
  · rcases (Edit.grows_of_failed h).contains hc with hc | ⟨n, hle, hlt, -⟩
    · exact hc
    · rw [hids] at hlt
      omega
  · rwa [hpage] at hc

end Run

theorem ne_nil_of_planAttach {parent : Option String} {nodes : List Element}
    (h : draft.planAttach parent nodes = .ok ()) : nodes ≠ [] := by
  rintro rfl
  cases h

/-- The first of the copied elements gets an id that has been drawn, and is on the page. -/
theorem placeCopy_top (parent : Option String) {nodes : List Element} (index : Option Int)
    (hne : nodes ≠ []) :
    (draft.placeCopy parent nodes index).1 ∈ (IdSource.drawMany nodes.length draft.ids).1 ∧
      (draft.placeCopy parent nodes index).2.page.contains
        (draft.placeCopy parent nodes index).1 = true := by
  obtain ⟨node, rest, rfl⟩ := List.exists_cons_of_ne_nil hne
  obtain ⟨⟨ids, source⟩, hdraw⟩ : ∃ p, IdSource.drawMany (node :: rest).length draft.ids = p :=
    ⟨_, rfl⟩
  have hlen : ids.length = (node :: rest).length := by
    rw [IdSource.drawMany_eq] at hdraw
    cases hdraw
    simp
  obtain ⟨new, hnew, hname⟩ := exists_newName hlen (List.mem_cons_self (a := node.id))
  simp only [placeCopy, hdraw, List.head?_cons, Option.map_some, Option.bind_some, hname,
    Option.getD_some]
  refine ⟨hnew, contains_foldl_put_iff.2 (.inr ?_)⟩
  simp [renamed, hname]

/-- The id that is answered has been drawn. -/
theorem Edit.mem_drawn_of_added {edit : Edit} {id : String}
    (h : edit.run draft = .ok (.added id) after) : id ∈ edit.drawn draft := by
  have houtcome := edit.run_outcome draft
  rw [h] at houtcome
  cases houtcome with
  | inserted => exact List.mem_singleton.2 rfl
  | attached hplan _ => exact (placeCopy_top _ _ (ne_nil_of_planAttach hplan)).1

/-! ## What is still there -/

/-- An edit takes no id from the page but those it says it has removed. -/
theorem Edit.contains_after {edit : Edit} {effect : Effect}
    (h : edit.run draft = .ok effect after) {x : String} (hc : draft.page.contains x = true) :
    after.page.contains x = true ∨ ∃ ids, effect = .removed ids ∧ x ∈ ids := by
  have houtcome := edit.run_outcome draft
  rw [h] at houtcome
  cases houtcome with
  | @inserted _ _ _ _ _ e =>
    left
    refine (@contains_foldl_put_iff _ [{ e with id := (draft.ids.draw).1 }] x).2 (.inl ?_)
    rwa [contains_hang]
  | moved | propsSet | styleSet =>
    left
    simpa only [rehang, addChild, dropChild, contains_modify] using hc
  | @removed _ removal =>
    by_cases hx : x ∈ removal.ids
    · exact .inr ⟨removal.ids, rfl, hx⟩
    · refine .inl (contains_foldl_delete_iff.2 ⟨hx, ?_⟩)
      simpa only [dropChild, contains_modify] using hc
  | cleared => exact .inr ⟨_, rfl, (draft.page.elements.contains_iff x).1 hc⟩
  | attached =>
    left
    refine contains_foldl_put_iff.2 (.inl ?_)
    rwa [contains_hang]

/-- The element whose id is answered is on the page. -/
theorem Edit.contains_of_added {edit : Edit} {id : String}
    (h : edit.run draft = .ok (.added id) after) : after.page.contains id = true := by
  have houtcome := edit.run_outcome draft
  rw [h] at houtcome
  cases houtcome with
  | @inserted _ _ _ _ _ e =>
    exact (@contains_foldl_put_iff _ [{ e with id := (draft.ids.draw).1 }] _).2
      (.inr (List.mem_singleton.2 rfl))
  | attached hplan _ => exact (placeCopy_top _ _ (ne_nil_of_planAttach hplan)).2

end Draft

end PageBuilder
