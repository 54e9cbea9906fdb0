import PageBuilder.Proofs.Page.Links

/-!
# Walks seen from their visits

What a walk comes to is decided by its visits.  What every visit keeps holds in the end
(`walk_keeps_below`); a walk that ends well has visited everything below what was on its agenda
(`walk_visits`); and on a tree nothing but a visit can fail (`Linked.visit_of_walk_error`).  The ids
that elements have by themselves play no part in this, so no page has to be keyed.
-/

namespace PageBuilder.Page

variable {σ : Type} {page : Page} {visit : σ → Element → Except Failure σ} {state final : σ}
  {agenda : List (String × Nat)}

/-- What visits of stored elements on the agenda and below it keep is kept. -/
theorem walk_keeps_below (good : σ → Prop) (below : String → Prop)
    (hbelow : ∀ {x y}, below x → page.Lists x y → below y)
    (hvisit : ∀ {id e s t}, below id → page.get? id = some e → visit s e = .ok t → good s → good t)
    (h : page.walk visit state agenda = .ok final) (hagenda : ∀ task ∈ agenda, below task.1)
    (hstate : good state) : good final := by
  fun_induction page.walk visit state agenda
  case case1 =>
    cases h
    exact hstate
  case case2 => cases h
  case case3 => cases h
  case case4 => cases h
  case case5 he _ hok ih =>
    obtain ⟨hid, hrest⟩ := List.forall_mem_cons.1 hagenda
    refine ih h (List.forall_mem_append.2 ⟨?_, hrest⟩) (hvisit hid he hok hstate)
    intro task hm
    obtain ⟨child, hchild, rfl⟩ := List.mem_map.1 hm
    exact hbelow hid ⟨_, he, hchild⟩

/-- What visits of stored elements keep is kept. -/
theorem walk_keeps (good : σ → Prop)
    (hvisit : ∀ {id e s t}, page.get? id = some e → visit s e = .ok t → good s → good t)
    (h : page.walk visit state agenda = .ok final) (hstate : good state) : good final :=
  walk_keeps_below good (fun _ => True) (fun _ _ => trivial) (fun _ => hvisit) h
    (fun _ _ => trivial) hstate

/-- If a visit marks what it visits, and no mark is ever lost, all that lies below the agenda is
marked in the end. -/
theorem walk_visits (marked : σ → Element → Prop)
    (hmark : ∀ {e s t}, visit s e = .ok t → marked t e)
    (hmono : ∀ {e f s t}, visit s e = .ok t → marked s f → marked t f)
    (h : page.walk visit state agenda = .ok final) {task : String × Nat} (htask : task ∈ agenda)
    {x : String} {f : Element} (hr : page.Reaches task.1 x) (hf : page.get? x = some f) :
    marked final f := by
  fun_induction page.walk visit state agenda generalizing task
  case case1 => cases htask
  case case2 => cases h
  case case3 => cases h
  case case4 => cases h
  case case5 state id n rest e he next hok ih =>
    rcases List.mem_cons.1 htask with rfl | hrest
    · rcases Relation.ReflTransGen.cases_head hr with rfl | ⟨child, ⟨e', he', hm⟩, hr⟩
      · cases he.symm.trans hf
        exact walk_keeps (marked · f) (fun _ => hmono) h (hmark hok)
      · -- The children of what is visited are next on the agenda.
        cases he.symm.trans he'
        exact ih h (List.mem_append_left _ (List.mem_map_of_mem (f := (·, n)) hm)) hr
    · exact ih h (List.mem_append_right _ hrest) hr

/-- The elements that a walk from the root comes by. -/
def Shown (page : Page) (e : Element) : Prop :=
  ∃ root id, page.root = some root ∧ page.Reaches root id ∧ page.get? id = some e

/-- On a tree a walk from the root comes by every element. -/
theorem Linked.shown (hl : page.Linked) {id : String} {e : Element} (he : page.get? id = some e) :
    page.Shown e := by
  obtain ⟨d, hd⟩ := hl.deep he
  obtain ⟨root, hroot⟩ := hd.root_eq_some
  exact ⟨root, id, hroot, hl.reaches_of_atDepth hd hroot, he⟩

/-- Every id of an agenda is stored so deep that its generations cannot be used up. -/
def Spared (page : Page) (agenda : List (String × Nat)) : Prop :=
  ∀ task ∈ agenda, ∃ d, page.AtDepth d task.1 ∧ page.size < task.2 + d

theorem spared_root {root : String} (h : page.root = some root) :
    page.Spared [(root, page.generations)] := by
  intro task hm
  cases List.mem_singleton.1 hm
  exact ⟨0, h, Nat.lt_succ_self _⟩

theorem Linked.spared_next (hl : page.Linked) {id : String} {n : Nat} {e : Element}
    {rest : List (String × Nat)} (h : page.Spared ((id, n + 1) :: rest))
    (he : page.get? id = some e) : page.Spared (e.children.map (·, n) ++ rest) := by
  obtain ⟨⟨d, hd, hlt⟩, hrest⟩ := List.forall_mem_cons.1 h
  refine List.forall_mem_append.2 ⟨?_, hrest⟩
  intro task hm
  obtain ⟨child, hchild, rfl⟩ := List.mem_map.1 hm
  exact ⟨d + 1, hl.atDepth_of_lists ⟨e, he, hchild⟩ hd, by simp only at hlt ⊢; omega⟩

/-- On a tree a walk that fails has failed on a visit. -/
theorem Linked.visit_of_walk_error (hl : page.Linked) (hagenda : page.Spared agenda)
    {failure : Failure} (h : page.walk visit state agenda = .error failure) :
    ∃ id e s, page.get? id = some e ∧ visit s e = .error failure := by
  fun_induction page.walk visit state agenda
  case case1 => cases h
  case case2 =>
    obtain ⟨d, hd, hlt⟩ := hagenda _ List.mem_cons_self
    have := hl.atDepth_lt_size hd
    simp only at hlt
    omega
  case case3 hnone =>
    obtain ⟨d, hd, -⟩ := hagenda _ List.mem_cons_self
    obtain ⟨e, he⟩ := hl.stored_of_atDepth hd
    cases hnone.symm.trans he
  case case4 he _ hfail =>
    cases h
    exact ⟨_, _, _, he, hfail⟩
  case case5 he _ _ ih => exact ih (hl.spared_next hagenda he) h

end PageBuilder.Page
