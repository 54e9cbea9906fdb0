import PageBuilder.Page.Integrity
import PageBuilder.Proofs.Page.Links

/-!
# The integrity check finds exactly the trees

`Page.problems` surveys a page with a stack.  `problems_eq_nil_iff` says that it finds nothing
exactly when the page is a tree whose elements have children, style attributes and, if asked for,
kinds as the catalog wants them.

The two directions go by different invariants of the survey.  If a survey finds nothing, its stack
never held an id twice or one seen before, so each element it saw is listed once
(`survey_sound`).  On a tree the ids on the stack lie apart, so no id is ever met a second time
(`survey_complete`).
-/

namespace PageBuilder.Page

variable {page : Page} {catalog : Catalog} {checkKinds : Bool}

/-- What the check asks of an element, apart from its links. -/
structure Admitted (catalog : Catalog) (checkKinds : Bool) (e : Element) : Prop where
  /-- An element of a known kind has children only if the kind holds children. -/
  holds_children : catalog.contains e.kind = true → e.children ≠ [] →
    catalog.isContainer e.kind = true
  /-- Kinds are known, if that is asked for. -/
  kind_known : checkKinds = true → catalog.contains e.kind = true
  /-- Style attributes are of known categories. -/
  style_known : ∀ category ∈ e.style.keys, Style.isKnown category = true

/-- The check has nothing against any element of a page, apart from its links. -/
def Admits (catalog : Catalog) (page : Page) (checkKinds : Bool) : Prop :=
  ∀ {id e}, page.get? id = some e → Admitted catalog checkKinds e

/-- A page that edits may rely on: a tree of elements stored under their own ids, with children
only where the catalog allows them and style attributes of known categories. -/
structure WellFormed (catalog : Catalog) (page : Page) : Prop where
  keyed : page.Keyed
  isTree : page.IsTree
  admitted : Admits catalog page false

/-! ## One element -/

/-- What the survey finds nothing wrong with at one element. -/
structure Clean (page : Page) (catalog : Catalog) (checkKinds : Bool) (id : String)
    (e : Element) : Prop where
  admitted : Admitted catalog checkKinds e
  child_stored : ∀ child ∈ e.children, ∃ c, page.get? child = some c ∧ c.parent = some id

theorem kindProblems_eq_nil_iff {id : String} {e : Element} :
    kindProblems catalog checkKinds id e = [] ↔
      (catalog.contains e.kind = true → e.children ≠ [] → catalog.isContainer e.kind = true) ∧
        (checkKinds = true → catalog.contains e.kind = true) := by
  unfold kindProblems
  cases hc : catalog.contains e.kind with
  | false => cases checkKinds <;> simp
  | true => cases hi : catalog.isContainer e.kind <;> cases e.children <;> simp

theorem styleProblems_eq_nil_iff {id : String} {e : Element} :
    styleProblems id e = [] ↔ ∀ category ∈ e.style.keys, Style.isKnown category = true := by
  simp [styleProblems, List.filter_eq_nil_iff]

theorem childProblems_eq_nil_iff {id : String} {e : Element} :
    page.childProblems id e = [] ↔
      ∀ child ∈ e.children, ∃ c, page.get? child = some c ∧ c.parent = some id := by
  rw [childProblems, List.flatMap_eq_nil_iff]
  apply forall₂_congr
  intro child _
  cases hc : page.get? child with
  | none => simp
  | some c => by_cases hp : c.parent = some id <;> simp [hp]

theorem problemsAt_eq_nil_iff {id : String} {e : Element} :
    page.problemsAt catalog checkKinds id e = [] ↔ page.Clean catalog checkKinds id e := by
  rw [problemsAt, List.append_eq_nil_iff, List.append_eq_nil_iff, kindProblems_eq_nil_iff,
    styleProblems_eq_nil_iff, childProblems_eq_nil_iff]
  exact ⟨fun ⟨⟨⟨h1, h2⟩, h3⟩, h4⟩ => ⟨⟨h1, h2, h3⟩, h4⟩,
    fun ⟨⟨h1, h2, h3⟩, h4⟩ => ⟨⟨⟨h1, h2⟩, h3⟩, h4⟩⟩

/-- Of children that are all stored the survey leaves out none. -/
theorem Clean.filter_children {id : String} {e : Element}
    (h : page.Clean catalog checkKinds id e) : e.children.filter page.contains = e.children := by
  apply List.filter_eq_self.2
  intro child hm
  obtain ⟨c, hc, -⟩ := h.child_stored child hm
  exact contains_iff_get?.2 ⟨c, hc⟩

/-! ## What a survey without findings shows -/

theorem seen_subset_survey (seen stack : List String) :
    seen ⊆ (page.survey catalog checkKinds seen stack).seen := by
  fun_induction page.survey catalog checkKinds seen stack
  case case1 => exact fun x hx => hx
  case case2 seen id stack hs rest ih => exact ih
  case case3 seen id stack hs hget ih => exact ih
  case case4 seen id stack hs e hget rest ih => exact fun x hx => ih (List.mem_cons_of_mem _ hx)

/-- Every element seen lies at or below one that was on the stack, is clean and has no child
twice; and the stack held no id twice and none that was seen before. -/
theorem survey_sound (seen stack : List String)
    (hstack : ∀ x ∈ stack, ∃ e, page.get? x = some e)
    (hnone : (page.survey catalog checkKinds seen stack).problems = []) :
    stack.Nodup ∧ (∀ x ∈ stack, x ∉ seen ∧ x ∈ (page.survey catalog checkKinds seen stack).seen) ∧
      ∀ y ∈ (page.survey catalog checkKinds seen stack).seen, y ∈ seen ∨
        (∃ x ∈ stack, page.Reaches x y) ∧ ∃ e, page.get? y = some e ∧
          page.Clean catalog checkKinds y e ∧ e.children.Nodup := by
  fun_induction page.survey catalog checkKinds seen stack
  case case1 seen => exact ⟨List.nodup_nil, by simp, fun y hy => Or.inl hy⟩
  case case2 seen id stack hs rest ih => simp at hnone
  case case3 seen id stack hs hget ih =>
    obtain ⟨e, he⟩ := hstack id List.mem_cons_self
    exact absurd (hget.symm.trans he) (by simp)
  case case4 seen id stack hs e he rest ih =>
    obtain ⟨hat, hrest⟩ := List.append_eq_nil_iff.1 hnone
    have hclean := problemsAt_eq_nil_iff.1 hat
    simp only [rest, hclean.filter_children] at ih hrest ⊢
    -- Clean children are stored, so the stack goes on to hold stored ids only.
    have hnext : ∀ x ∈ e.children.reverse ++ stack, ∃ e, page.get? x = some e := by
      intro x hx
      rcases List.mem_append.1 hx with hx | hx
      · obtain ⟨c, hc, -⟩ := hclean.child_stored x (List.mem_reverse.1 hx)
        exact ⟨c, hc⟩
      · exact hstack x (List.mem_cons_of_mem _ hx)
    obtain ⟨hnodup, hfresh, hseen⟩ := ih hnext hrest
    obtain ⟨hkids, hn, -⟩ := List.nodup_append.1 hnodup
    refine ⟨List.nodup_cons.2 ⟨?_, hn⟩, ?_, ?_⟩
    · intro hm
      exact (hfresh id (List.mem_append_right _ hm)).1 List.mem_cons_self
    · intro x hx
      rcases List.mem_cons.1 hx with rfl | hx
      · exact ⟨hs, seen_subset_survey _ _ List.mem_cons_self⟩
      · obtain ⟨h1, h2⟩ := hfresh x (List.mem_append_right _ hx)
        exact ⟨fun hm => h1 (List.mem_cons_of_mem _ hm), h2⟩
    · intro y hy
      rcases hseen y hy with hy | ⟨⟨x, hx, hr⟩, hy⟩
      · rcases List.mem_cons.1 hy with rfl | hy
        · exact Or.inr ⟨⟨_, List.mem_cons_self, .refl⟩, e, he, hclean,
            List.nodup_reverse.1 hkids⟩
        · exact Or.inl hy
      · refine Or.inr ⟨?_, hy⟩
        rcases List.mem_append.1 hx with hx | hx
        · exact ⟨id, List.mem_cons_self, .head ⟨e, he, List.mem_reverse.1 hx⟩ hr⟩
        · exact ⟨x, List.mem_cons_of_mem _ hx, hr⟩

/-! ## What a survey of a tree finds -/

/-- Neither of two elements lies below the other. -/
def Apart (page : Page) (a b : String) : Prop :=
  ¬ page.Reaches a b ∧ ¬ page.Reaches b a

/-- Children of one element lie apart from each other, and from all that lies apart from it. -/
theorem Linked.apart_next (h : page.Linked) {id : String} {e : Element} {stack : List String}
    (he : page.get? id = some e) (hapart : (id :: stack).Pairwise page.Apart) :
    (e.children.reverse ++ stack).Pairwise page.Apart := by
  obtain ⟨hid, hstack⟩ := List.pairwise_cons.1 hapart
  refine List.pairwise_append.2 ⟨?_, hstack, ?_⟩
  · apply (List.nodup_reverse.2 (h.nodup_children he)).imp_of_mem
    intro a b ha hb hne
    have hla : page.Lists id a := ⟨e, he, List.mem_reverse.1 ha⟩
    have hlb : page.Lists id b := ⟨e, he, List.mem_reverse.1 hb⟩
    exact ⟨fun hr => hne (h.siblings_apart hla hlb hr .refl),
      fun hr => hne (h.siblings_apart hla hlb .refl hr)⟩
  · intro c hc x hx
    have hl : page.Lists id c := ⟨e, he, List.mem_reverse.1 hc⟩
    refine ⟨fun hr => (hid x hx).1 (.head hl hr), ?_⟩
    intro hr
    rcases h.reaches_parent hr hl with rfl | hr
    · exact (hid x hx).1 (.single hl)
    · exact (hid x hx).2 hr

theorem survey_complete (h : page.Linked)
    (hclean : ∀ {id e}, page.get? id = some e → page.Clean catalog checkKinds id e)
    (seen stack : List String) (hstack : ∀ x ∈ stack, ∃ e, page.get? x = some e)
    (hapart : stack.Pairwise page.Apart)
    (hseen : ∀ x ∈ stack, ∀ y ∈ seen, ¬ page.Reaches x y) :
    (page.survey catalog checkKinds seen stack).problems = [] ∧
      ∀ x ∈ stack, ∀ y, page.Reaches x y →
        y ∈ (page.survey catalog checkKinds seen stack).seen := by
  fun_induction page.survey catalog checkKinds seen stack
  case case1 seen => simp
  case case2 seen id stack hs rest ih => exact absurd .refl (hseen id List.mem_cons_self id hs)
  case case3 seen id stack hs hget ih =>
    obtain ⟨e, he⟩ := hstack id List.mem_cons_self
    exact absurd (hget.symm.trans he) (by simp)
  case case4 seen id stack hs e he rest ih =>
    simp only [rest, (hclean he).filter_children] at ih ⊢
    have hid := (List.pairwise_cons.1 hapart).1
    have hl : ∀ c ∈ e.children, page.Lists id c := fun c hc => ⟨e, he, hc⟩
    -- The children take the place of their parent on the stack: they are stored, apart, and above
    -- nothing that has been seen.
    obtain ⟨hnone, hall⟩ := ih
      (by
        intro x hx
        rcases List.mem_append.1 hx with hx | hx
        · exact h.stored_of_reaches (.single (hl x (List.mem_reverse.1 hx))) ⟨e, he⟩
        · exact hstack x (List.mem_cons_of_mem _ hx))
      (h.apart_next he hapart)
      (by
        intro x hx y hy hr
        rcases List.mem_append.1 hx with hx | hx
        · have hlx := hl x (List.mem_reverse.1 hx)
          rcases List.mem_cons.1 hy with rfl | hy
          · exact h.not_reaches_of_lists hlx hr
          · exact hseen id List.mem_cons_self y hy (.head hlx hr)
        · rcases List.mem_cons.1 hy with rfl | hy
          · exact (hid x hx).2 hr
          · exact hseen x (List.mem_cons_of_mem _ hx) y hy hr)
    refine ⟨List.append_eq_nil_iff.2 ⟨problemsAt_eq_nil_iff.2 (hclean he), hnone⟩,
      ?_⟩
    intro x hx y hr
    rcases List.mem_cons.1 hx with rfl | hx
    · rcases Relation.ReflTransGen.cases_head hr with rfl | ⟨c, ⟨e', he', hm⟩, hr⟩
      · exact seen_subset_survey _ _ List.mem_cons_self
      · cases he.symm.trans he'
        exact hall c (List.mem_append_left _ (List.mem_reverse.2 hm)) y hr
    · exact hall x (List.mem_append_right _ hx) y hr

/-! ## The check -/

theorem orphans_eq_nil_iff {seen : List String} :
    (page.elements.keys.filter fun id => !seen.contains id).mergeSort = [] ↔
      ∀ id e, page.get? id = some e → id ∈ seen := by
  rw [← List.length_eq_zero_iff, List.length_mergeSort, List.length_eq_zero_iff,
    List.filter_eq_nil_iff]
  constructor
  · intro h id e he
    simpa using h id (mem_keys_iff_get?.2 ⟨e, he⟩)
  · intro h id hm
    obtain ⟨e, he⟩ := mem_keys_iff_get?.1 hm
    simpa using h id e he

theorem isEmpty_elements_iff : page.elements.isEmpty = true ↔ ∀ id, page.get? id = none := by
  constructor
  · intro h id
    cases he : page.get? id with
    | none => rfl
    | some e =>
      have hm := (page.elements.mem_entries_iff id e).2 he
      rw [List.isEmpty_iff.1 h] at hm
      exact absurd hm (by simp)
  · intro h
    refine List.isEmpty_iff.2 (List.eq_nil_iff_forall_not_mem.2 fun ⟨id, e⟩ hm => ?_)
    exact absurd ((h id).symm.trans ((page.elements.mem_entries_iff id e).1 hm)) (by simp)

theorem isTree_of_problems (hnone : page.problems catalog checkKinds = []) :
    page.IsTree ∧ ∀ {id e}, page.get? id = some e → page.Clean catalog checkKinds id e := by
  unfold problems at hnone
  cases hroot : page.root with
  | none =>
    simp only [hroot] at hnone
    have hempty : ∀ id, page.get? id = none := by
      apply isEmpty_elements_iff.1
      by_contra hne
      simp [hne] at hnone
    refine ⟨(linked_of_empty hroot hempty).isTree, fun he => ?_⟩
    exact absurd ((hempty _).symm.trans he) (by simp)
  | some root =>
    simp only [hroot] at hnone
    cases hr : page.get? root with
    | none => simp [hr] at hnone
    | some r =>
      simp only [hr, List.append_eq_nil_iff, List.map_eq_nil_iff] at hnone
      obtain ⟨⟨hparent, hfound⟩, horphans⟩ := hnone
      have hrn : r.parent = none := by
        cases hp : r.parent with
        | none => rfl
        | some parent => simp [hp] at hparent
      have hseen := orphans_eq_nil_iff.1 horphans
      obtain ⟨-, -, hall⟩ := survey_sound [] [root]
        (fun x hx => ⟨r, by rw [List.mem_singleton.1 hx, hr]⟩) hfound
      -- Nothing is left over, so what the survey shows of the elements seen holds of all.
      have hfacts : ∀ {id e}, page.get? id = some e → page.Reaches root id ∧
          page.Clean catalog checkKinds id e ∧ e.children.Nodup := by
        intro id e he
        rcases hall id (hseen id e he) with hm | ⟨⟨x, hx, hreach⟩, e', he', hclean, hn⟩
        · simp at hm
        · cases he.symm.trans he'
          exact ⟨List.mem_singleton.1 hx ▸ hreach, hclean, hn⟩
      have hlinked : page.Linked := by
        apply linked_of_reached hroot ⟨r, hr, hrn⟩
        · rintro id child ⟨e, he, hm⟩
          exact (hfacts he).2.1.child_stored child hm
        · exact fun he => (hfacts he).2.2
        · exact fun he => (hfacts he).1
      exact ⟨hlinked.isTree, fun he => (hfacts he).2.1⟩

theorem problems_of_isTree (h : page.IsTree)
    (hclean : ∀ {id e}, page.get? id = some e → page.Clean catalog checkKinds id e) :
    page.problems catalog checkKinds = [] := by
  unfold problems
  cases hroot : page.root with
  | none => simp [isEmpty_elements_iff.2 (h.root_eq_none_iff.1 hroot)]
  | some root =>
    obtain ⟨r, hr, hrn⟩ := h.root_stored hroot
    obtain ⟨hfound, hall⟩ := survey_complete h.linked hclean [] [root]
      (fun x hx => ⟨r, by rw [List.mem_singleton.1 hx, hr]⟩) (List.pairwise_singleton ..) (by simp)
    have hseen : ∀ id e, page.get? id = some e →
        id ∈ (page.survey catalog checkKinds [] [root]).seen := by
      intro id e he
      obtain ⟨root', hroot', hreach⟩ := h.reached he
      cases hroot.symm.trans hroot'
      exact hall root List.mem_cons_self id hreach
    have horphans := orphans_eq_nil_iff.2 hseen
    simp only [hr, hrn, hfound, horphans, Option.toList_none, List.map_nil, List.append_nil]

/-- The check finds nothing exactly on trees whose elements the catalog admits. -/
theorem problems_eq_nil_iff :
    page.problems catalog checkKinds = [] ↔ page.IsTree ∧ Admits catalog page checkKinds := by
  constructor
  · intro hnone
    obtain ⟨htree, hclean⟩ := isTree_of_problems hnone
    exact ⟨htree, fun he => (hclean he).admitted⟩
  · rintro ⟨htree, hadmits⟩
    exact problems_of_isTree htree fun he =>
      ⟨hadmits he, fun child hm => htree.child_stored ⟨_, he, hm⟩⟩

theorem wellFormed_iff_problems :
    page.WellFormed catalog ↔ page.Keyed ∧ page.problems catalog false = [] := by
  rw [problems_eq_nil_iff]
  exact ⟨fun h => ⟨h.keyed, h.isTree, h.admitted⟩, fun ⟨hk, ht, ha⟩ => ⟨hk, ht, ha⟩⟩

/-! ## Small pages -/

theorem keyed_of_entries (h : ∀ p ∈ page.elements.entries, p.2.id = p.1) : page.Keyed :=
  fun he => h _ ((page.elements.mem_entries_iff _ _).2 he)

/-- A text in a container: the smallest page with a link. -/
def pair : Page :=
  { elements := .ofList [
      ("el_1", ⟨"el_1", "container", .empty, .empty, ["el_2"], none⟩),
      ("el_2", ⟨"el_2", "text", .empty, .empty, [], some "el_1"⟩)]
    root := some "el_1" }

theorem pair_wellFormed : pair.WellFormed .builtIn :=
  wellFormed_iff_problems.2 ⟨keyed_of_entries (by decide), by decide +kernel⟩

/-- A text beside a container with a text of its own. -/
def nested : Page :=
  { elements := .ofList [
      ("el_1", ⟨"el_1", "container", .empty, .empty, ["el_2", "el_3"], none⟩),
      ("el_2", ⟨"el_2", "text", .empty, .empty, [], some "el_1"⟩),
      ("el_3", ⟨"el_3", "container", .empty, .empty, ["el_4"], some "el_1"⟩),
      ("el_4", ⟨"el_4", "text", .empty, .empty, [], some "el_3"⟩)]
    root := some "el_1" }

theorem nested_wellFormed : nested.WellFormed .builtIn :=
  wellFormed_iff_problems.2 ⟨keyed_of_entries (by decide), by decide +kernel⟩

end PageBuilder.Page
