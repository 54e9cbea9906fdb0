import PageBuilder.Proofs.Page.Integrity
import PageBuilder.Proofs.Page.Reshape

/-!
# What reshaping leaves of the elements

Reshaping a tree changes links only: every element afterwards is one from before with the same
id, kind and style, and it has children only if that one had some or it is the element something
was hung under.  So elements stay under their own ids, and what the catalog asks of them goes on
to hold.
-/

namespace PageBuilder.Page

variable {page part result : Page} {catalog : Catalog} {checkKinds : Bool}

/-- Two elements differ in their links and props at most. -/
structure Alike (f e : Element) : Prop where
  id : f.id = e.id
  kind : f.kind = e.kind
  style : f.style = e.style

theorem Alike.refl (e : Element) : Alike e e := ⟨rfl, rfl, rfl⟩

/-- An element goes on to be admitted if it gets children only where its kind holds them. -/
theorem Admitted.of_alike {e f : Element} (h : Admitted catalog checkKinds e) (ha : Alike f e)
    (hc : f.children ≠ [] → e.children ≠ [] ∨ catalog.isContainer e.kind = true) :
    Admitted catalog checkKinds f where
  holds_children hk hne := by
    rw [ha.kind] at hk ⊢
    exact (hc hne).elim (h.holds_children hk) id
  kind_known hk := ha.kind ▸ h.kind_known hk
  style_known := ha.style ▸ h.style_known

/-- Asking for known kinds asks for more. -/
theorem Admitted.weaken {e : Element} (h : Admitted catalog true e) :
    Admitted catalog checkKinds e :=
  ⟨h.holds_children, fun _ => h.kind_known rfl, h.style_known⟩

/-! ## Hanging in -/

section Grafted

variable {parent : Option String} {index : Option Int} {top : String}

theorem Grafted.get?_cases (h : page.Grafted part parent index top result) {x : String}
    {f : Element} (hf : result.get? x = some f) :
    (∃ q, part.get? x = some q ∧ Alike f q ∧ f.children = q.children) ∨
      ∃ e, page.get? x = some e ∧ Alike f e ∧ (parent = some x ∨ f.children = e.children) := by
  rcases h.get?_result hf with ⟨q, hq⟩ | ⟨e, he⟩
  · have hf' := hf.symm.trans (h.get?_part hq)
    refine Or.inl ⟨q, hq, ?_⟩
    by_cases hx : x = top
    · rw [if_pos hx] at hf'
      cases hf'
      exact ⟨⟨rfl, rfl, rfl⟩, rfl⟩
    · rw [if_neg hx] at hf'
      cases hf'
      exact ⟨.refl _, rfl⟩
  · refine Or.inr ⟨e, he, ?_⟩
    by_cases hx : parent = some x
    · cases hf.symm.trans (h.get?_host he hx)
      exact ⟨⟨rfl, rfl, rfl⟩, Or.inl hx⟩
    · cases hf.symm.trans ((h.get?_page (h.not_part he) hx).trans he)
      exact ⟨.refl _, Or.inr rfl⟩

theorem Keyed.grafted (hk : page.Keyed) (hp : part.Keyed)
    (h : page.Grafted part parent index top result) : result.Keyed := by
  intro x f hf
  rcases h.get?_cases hf with ⟨q, hq, ha, -⟩ | ⟨e, he, ha, -⟩
  · exact ha.id.trans (hp hq)
  · exact ha.id.trans (hk he)

theorem Admits.grafted (ha : Admits catalog page checkKinds) (hp : Admits catalog part checkKinds)
    (hhost : ∀ {id e}, parent = some id → page.get? id = some e →
      catalog.isContainer e.kind = true)
    (h : page.Grafted part parent index top result) : Admits catalog result checkKinds := by
  intro x f hf
  rcases h.get?_cases hf with ⟨q, hq, hlike, hc⟩ | ⟨e, he, hlike, hx | hc⟩
  · exact (hp hq).of_alike hlike fun hne => Or.inl (hc ▸ hne)
  · exact (ha he).of_alike hlike fun _ => Or.inr (hhost hx he)
  · exact (ha he).of_alike hlike fun hne => Or.inl (hc ▸ hne)

end Grafted

/-! ## Dropping -/

section Pruned

variable {top parent : String}

theorem Pruned.get?_cases (h : page.Pruned top parent result) {x : String} {f : Element}
    (hf : result.get? x = some f) : ∃ e, page.get? x = some e ∧ Alike f e ∧
      (f.children ≠ [] → e.children ≠ []) := by
  have hr : ¬ page.Reaches top x := fun hr =>
    absurd ((h.get?_below hr).symm.trans hf) (by simp)
  by_cases hx : x = parent
  · subst hx
    obtain ⟨e, he, -⟩ := h.listed
    cases hf.symm.trans (h.get?_parent he)
    refine ⟨e, he, ⟨rfl, rfl, rfl⟩, fun hne hnil => hne ?_⟩
    simp [hnil]
  · exact ⟨f, (h.get?_other hr hx).symm.trans hf, .refl f, id⟩

theorem Keyed.pruned (hk : page.Keyed) (h : page.Pruned top parent result) : result.Keyed := by
  intro x f hf
  obtain ⟨e, he, ha, -⟩ := h.get?_cases hf
  exact ha.id.trans (hk he)

theorem Admits.pruned (ha : Admits catalog page checkKinds) (h : page.Pruned top parent result) :
    Admits catalog result checkKinds := by
  intro x f hf
  obtain ⟨e, he, hlike, hc⟩ := h.get?_cases hf
  exact (ha he).of_alike hlike fun hne => Or.inl (hc hne)

end Pruned

/-! ## Moving -/

section Rehung

variable {id old target : String} {index : Option Int}

theorem Rehung.get?_cases (h : page.Rehung id old target index result) {x : String} {f : Element}
    (hf : result.get? x = some f) : ∃ e, page.get? x = some e ∧ Alike f e ∧
      (x = target ∨ (f.children ≠ [] → e.children ≠ [])) := by
  obtain ⟨e, he⟩ := h.exists_page hf
  refine ⟨e, he, ?_⟩
  by_cases hx : x = id
  · subst hx
    cases hf.symm.trans (h.get?_moved he)
    exact ⟨⟨rfl, rfl, rfl⟩, Or.inr fun hne => hne⟩
  · cases hf.symm.trans (h.get?_other he hx)
    refine ⟨⟨rfl, rfl, rfl⟩, ?_⟩
    by_cases ht : x = target
    · exact Or.inl ht
    · refine Or.inr fun hne hnil => hne ?_
      simp [ht, hnil]

theorem Keyed.rehung (hk : page.Keyed) (h : page.Rehung id old target index result) :
    result.Keyed := by
  intro x f hf
  obtain ⟨e, he, ha, -⟩ := h.get?_cases hf
  exact ha.id.trans (hk he)

theorem Admits.rehung (ha : Admits catalog page checkKinds)
    (hhost : ∀ {e}, page.get? target = some e → catalog.isContainer e.kind = true)
    (h : page.Rehung id old target index result) : Admits catalog result checkKinds := by
  intro x f hf
  obtain ⟨e, he, hlike, hx | hc⟩ := h.get?_cases hf
  · exact (ha he).of_alike hlike fun _ => Or.inr (hhost (hx ▸ he))
  · exact (ha he).of_alike hlike fun hne => Or.inl (hc hne)

end Rehung

/-! ## Changing what an element says -/

theorem exists_of_modify {id x : String} {f : Element → Element} {g : Element}
    (h : (page.modify id f).get? x = some g) : ∃ e, page.get? x = some e ∧ (g = f e ∨ g = e) := by
  rw [get?_modify] at h
  split at h
  · obtain ⟨e, he, rfl⟩ := Option.map_eq_some_iff.1 h
    exact ⟨e, he, Or.inl rfl⟩
  · exact ⟨g, h, Or.inr rfl⟩

/-- Changing an element without its links keeps the tree. -/
theorem Linked.modify (hl : page.Linked) {id : String} {f : Element → Element}
    (hchildren : ∀ e, (f e).children = e.children) (hparent : ∀ e, (f e).parent = e.parent) :
    (page.modify id f).Linked := by
  refine hl.congr (root_modify page id f) ?_ fun h => (exists_of_modify h).imp fun _ he => he.1
  intro x e he
  rw [get?_modify, he]
  split_ifs
  · exact ⟨f e, rfl, hchildren e, hparent e⟩
  · exact ⟨e, rfl, rfl, rfl⟩

theorem Keyed.modify (hk : page.Keyed) {id : String} {f : Element → Element}
    (hid : ∀ e, (f e).id = e.id) : (page.modify id f).Keyed := by
  intro x g hg
  obtain ⟨e, he, rfl | rfl⟩ := exists_of_modify hg
  · exact (hid e).trans (hk he)
  · exact hk he

theorem Admits.modify (ha : Admits catalog page checkKinds) {id : String} {f : Element → Element}
    (hf : ∀ {e}, Admitted catalog checkKinds e → Admitted catalog checkKinds (f e)) :
    Admits catalog (page.modify id f) checkKinds := by
  intro x g hg
  obtain ⟨e, he, rfl | rfl⟩ := exists_of_modify hg
  · exact hf (ha he)
  · exact ha he

end PageBuilder.Page
