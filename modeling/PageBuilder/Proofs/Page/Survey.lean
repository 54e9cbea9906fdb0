import PageBuilder.Proofs.Page.Integrity
import PageBuilder.Proofs.Page.Outline

/-!
# The order of the integrity check

The survey takes the last child that was put on its stack first.  On a page that is a tree it
therefore looks into an element, then into all that hangs below its last child, then below the one
before, and so on: `Outline.lastFirst` is that order written down recursively, and
`survey_outline` says that the survey keeps to it.  A page has one such order (`LastFirst.unique`).

Of a page without a problem but for kinds the check says which kinds are unknown, element by element
in that order, and nothing else (`problems_of_known_structure`).
-/

namespace PageBuilder

namespace Outline

mutual

/-- The elements of an outline, each before those below it and later children before earlier
ones. -/
def lastFirst : Outline → List Element
  | .node e below => e :: lastFirsts below

/-- The elements of outlines, those of the last one first. -/
def lastFirsts : List Outline → List Element
  | [] => []
  | o :: rest => lastFirsts rest ++ o.lastFirst

end

mutual

theorem lastFirst_perm : ∀ o : Outline, o.lastFirst.Perm o.preorder
  | .node e below => (lastFirsts_perm below).cons e

theorem lastFirsts_perm : ∀ os : List Outline, (lastFirsts os).Perm (preorders os)
  | [] => .nil
  | o :: rest => ((lastFirsts_perm rest).append (lastFirst_perm o)).trans List.perm_append_comm

end

end Outline

namespace Page

open Outline

variable {page : Page} {catalog : Catalog} {checkKinds : Bool}

/-- The elements of a page in the order of its check. -/
def LastFirst (page : Page) (walk : List Element) : Prop :=
  match page.root with
  | none => walk = []
  | some root => ∃ o : Outline, o.DrawnFrom page ∧ o.top.id = root ∧ walk = o.lastFirst

mutual

/-- A page draws one outline only from an element. -/
theorem eq_of_drawnFrom : ∀ {o p : Outline}, o.DrawnFrom page → p.DrawnFrom page →
    o.top.id = p.top.id → o = p
  | .node e below, .node f under, ho, hp, hid => by
    simp only [DrawnFrom] at ho hp
    simp only [top_node] at hid
    obtain ⟨he, hbelow, hobelow⟩ := ho
    obtain ⟨hf, hunder, hpunder⟩ := hp
    rw [hid, hf] at he
    cases he
    rw [eq_of_allDrawnFrom hobelow hpunder (hbelow.symm.trans hunder)]

theorem eq_of_allDrawnFrom : ∀ {os ps : List Outline}, AllDrawnFrom page os →
    AllDrawnFrom page ps → os.map (fun o => o.top.id) = ps.map (fun o => o.top.id) → os = ps
  | [], [], _, _, _ => rfl
  | o :: os, p :: ps, ho, hp, hids => by
    simp only [AllDrawnFrom] at ho hp
    obtain ⟨hid, hids⟩ := List.cons.inj hids
    rw [eq_of_drawnFrom ho.1 hp.1 hid, eq_of_allDrawnFrom ho.2 hp.2 hids]

end

/-- A traversal lists whatever outline is drawn from its start. -/
theorem Linked.traverse_of_drawnFrom (h : page.Linked) (hk : page.Keyed) {o : Outline}
    (hd : o.DrawnFrom page) : page.traverse (some o.top.id) = .ok o.preorder := by
  obtain ⟨p, hp, htop, ht⟩ := h.traverse_eq hk hd.get?_top
  rw [ht, eq_of_drawnFrom hp hd (by rw [htop])]

/-- There is one order only. -/
theorem LastFirst.unique {walk other : List Element} (h : page.LastFirst walk)
    (hother : page.LastFirst other) : walk = other := by
  unfold LastFirst at h hother
  cases hroot : page.root with
  | none =>
    simp only [hroot] at h hother
    rw [h, hother]
  | some root =>
    simp only [hroot] at h hother
    obtain ⟨o, ho, hid, rfl⟩ := h
    obtain ⟨p, hp, hpid, rfl⟩ := hother
    rw [eq_of_drawnFrom ho hp (hid.trans hpid.symm)]

/-- The elements of a page are those stored under their own ids, if all are stored so. -/
theorem Keyed.mem_values_iff (h : page.Keyed) {e : Element} :
    e ∈ page.elements.values ↔ page.get? e.id = some e := by
  constructor
  · intro hm
    obtain ⟨⟨id, e⟩, hentry, rfl⟩ := List.mem_map.1 hm
    have he : page.get? id = some e := (page.elements.mem_entries_iff id e).1 hentry
    rw [h he]
    exact he
  · intro he
    exact List.mem_map.2 ⟨(e.id, e), (page.elements.mem_entries_iff _ e).2 he, rfl⟩

/-! ## The survey of an outline -/

/-- A survey that looks into elements one after the other before it goes on. -/
def Survey.after (page : Page) (catalog : Catalog) (checkKinds : Bool) (walk : List Element)
    (rest : Survey) : Survey :=
  ⟨(walk.flatMap fun e => page.problemsAt catalog checkKinds e.id e) ++ rest.problems, rest.seen⟩

theorem Survey.after_append (walk more : List Element) (rest : Survey) :
    after page catalog checkKinds (walk ++ more) rest =
      after page catalog checkKinds walk (after page catalog checkKinds more rest) := by
  simp [after]

/-- What a survey has seen after so many elements. -/
def seenAfter (walk : List Element) (seen : List String) : List String :=
  (walk.map Element.id).reverse ++ seen

theorem seenAfter_append (walk more : List Element) (seen : List String) :
    seenAfter (walk ++ more) seen = seenAfter more (seenAfter walk seen) := by
  simp [seenAfter]

/-- No element of a walk is met twice, and none has been seen before. -/
def Fresh (walk : List Element) (seen : List String) : Prop :=
  (walk.map Element.id).Nodup ∧ ∀ e ∈ walk, e.id ∉ seen

theorem fresh_append {walk more : List Element} {seen : List String} :
    Fresh (walk ++ more) seen ↔ Fresh walk seen ∧ Fresh more (seenAfter walk seen) := by
  simp only [Fresh, seenAfter, List.map_append, List.nodup_append, List.mem_append,
    List.mem_reverse, List.mem_map, forall_exists_index, and_imp]
  constructor
  · rintro ⟨⟨hwalk, hmore, hapart⟩, hseen⟩
    refine ⟨⟨hwalk, fun e he => hseen e (.inl he)⟩, hmore, fun e he => ?_⟩
    rintro (⟨x, hx, hid⟩ | hm)
    · exact hapart x.id x hx rfl e.id e he rfl hid
    · exact hseen e (.inr he) hm
  · rintro ⟨⟨hwalk, hold⟩, hmore, hnew⟩
    refine ⟨⟨hwalk, hmore, ?_⟩, ?_⟩
    · rintro - x hx rfl - e he rfl hid
      exact hnew e he (.inl ⟨x, hx, hid⟩)
    · rintro e (he | he)
      · exact hold e he
      · exact fun hm => hnew e he (.inr hm)

/-- All children listed by an outline's top are elements. -/
theorem filter_contains_tops {os : List Outline} (hd : AllDrawnFrom page os) :
    (os.map fun o => o.top.id).filter page.contains = os.map fun o => o.top.id := by
  apply List.filter_eq_self.2
  intro id hm
  obtain ⟨o, ho, rfl⟩ := List.mem_map.1 hm
  exact contains_iff_get?.2 ⟨_, (allDrawnFrom_iff.1 hd o ho).get?_top⟩

mutual

/-- The survey looks into all of an outline before it goes on. -/
theorem survey_outline : ∀ {o : Outline}, o.DrawnFrom page → ∀ {seen : List String},
    Fresh o.lastFirst seen → ∀ stack,
      page.survey catalog checkKinds seen (o.top.id :: stack) =
        Survey.after page catalog checkKinds o.lastFirst
          (page.survey catalog checkKinds (seenAfter o.lastFirst seen) stack)
  | .node e below, hd, seen, hfresh, stack => by
    simp only [DrawnFrom] at hd
    obtain ⟨he, hc, hbelow⟩ := hd
    have hsplit : Fresh ([e] ++ lastFirsts below) seen := hfresh
    have hs : e.id ∉ seen := hfresh.2 e List.mem_cons_self
    have hrest : Fresh (lastFirsts below) (e.id :: seen) := (fresh_append.1 hsplit).2
    rw [top_node, survey.eq_2, dif_neg hs]
    split
    · rename_i hnone
      exact absurd (hnone.symm.trans he) (by simp)
    · rename_i e' he'
      cases he.symm.trans he'
      rw [hc, filter_contains_tops hbelow, survey_outlines hbelow hrest stack]
      simp [lastFirst, Survey.after, seenAfter]

/-- Outlines whose tops come off the stack in turn are looked into one after the other. -/
theorem survey_outlines : ∀ {os : List Outline}, AllDrawnFrom page os →
    ∀ {seen : List String}, Fresh (lastFirsts os) seen → ∀ stack,
      page.survey catalog checkKinds seen ((os.map fun o => o.top.id).reverse ++ stack) =
        Survey.after page catalog checkKinds (lastFirsts os)
          (page.survey catalog checkKinds (seenAfter (lastFirsts os) seen) stack)
  | [], _, seen, _, stack => by simp [lastFirsts, Survey.after, seenAfter]
  | o :: rest, hd, seen, hfresh, stack => by
    simp only [AllDrawnFrom] at hd
    obtain ⟨hlater, hfirst⟩ := fresh_append.1 hfresh
    have hstack : ((o :: rest).map fun o => o.top.id).reverse ++ stack =
        (rest.map fun o => o.top.id).reverse ++ (o.top.id :: stack) := by simp
    rw [hstack, survey_outlines hd.2 hlater, survey_outline hd.1 hfirst, lastFirsts,
      Survey.after_append, seenAfter_append]

end

/-! ## The check -/

/-- The check of a page that is a tree finds what is wrong at its elements, in order. -/
theorem Linked.exists_lastFirst (h : page.Linked) (hk : page.Keyed) (catalog : Catalog)
    (checkKinds : Bool) :
    ∃ walk, page.LastFirst walk ∧ walk.Perm page.elements.values ∧
      page.problems catalog checkKinds =
        walk.flatMap fun e => page.problemsAt catalog checkKinds e.id e := by
  cases hroot : page.root with
  | none =>
    have hempty : page.elements.isEmpty = true :=
      isEmpty_elements_iff.2 (h.isTree.root_eq_none_iff.1 hroot)
    refine ⟨[], by simp [LastFirst, hroot], ?_, by simp [problems, hroot, hempty]⟩
    rw [OrderedMap.values, List.isEmpty_iff.1 hempty]
    exact .nil
  | some root =>
    obtain ⟨e, he, hparent⟩ := h.root_stored hroot
    obtain ⟨o, hd, rfl, -⟩ := h.exists_outline hk he
    have hid : o.top.id = root := hk he
    have hpre : o.preorder.Perm page.elements.values :=
      perm_preorder h hk hd (hroot.trans (congrArg some hid.symm))
    have hperm := o.lastFirst_perm.trans hpre
    have hids : (o.lastFirst.map Element.id).Nodup :=
      (o.lastFirst_perm.map Element.id).nodup_iff.2 (nodup_preorder h hd)
    refine ⟨o.lastFirst, ?_, hperm, ?_⟩
    · simp only [LastFirst, hroot]
      exact ⟨o, hd, hid, rfl⟩
    have hsurvey : page.survey catalog checkKinds [] [root] =
        ⟨o.lastFirst.flatMap fun e => page.problemsAt catalog checkKinds e.id e,
          (o.lastFirst.map Element.id).reverse⟩ := by
      rw [← hid, survey_outline hd ⟨hids, by simp⟩, survey.eq_1]
      simp [Survey.after, seenAfter]
    -- The walk goes through all elements, so none is left over.
    have hseen : ∀ id e, page.get? id = some e →
        id ∈ (page.survey catalog checkKinds [] [root]).seen := by
      intro id e he
      have hid : e.id = id := hk he
      have hm : e ∈ o.lastFirst := hperm.mem_iff.2 (hk.mem_values_iff.2 (hid ▸ he))
      rw [hsurvey, List.mem_reverse]
      exact List.mem_map.2 ⟨e, hm, hid⟩
    simp only [problems, hroot, he, hparent, orphans_eq_nil_iff.2 hseen]
    simp [hsurvey]

/-- What is wrong with an element's kind, where nothing else is wrong with it. -/
theorem Clean.problemsAt_kinds {id : String} {e : Element} (h : page.Clean catalog false id e) :
    page.problemsAt catalog true id e =
      if catalog.contains e.kind then [] else [.unknownKind id e.kind] := by
  rw [problemsAt, styleProblems_eq_nil_iff.2 h.admitted.style_known,
    childProblems_eq_nil_iff.2 h.child_stored, List.append_nil, List.append_nil]
  split
  · rename_i hknown
    exact kindProblems_eq_nil_iff.2 ⟨h.admitted.holds_children, fun _ => hknown⟩
  · rename_i hunknown
    simp [kindProblems, hunknown]

theorem flatMap_eq_map_filter {α β : Type} (p : α → Bool) (f : α → β) (as : List α) :
    (as.flatMap fun a => if p a then [] else [f a]) = (as.filter fun a => !p a).map f := by
  induction as with
  | nil => rfl
  | cons a rest ih => cases h : p a <;> simp [h, ih]

/-- Of a page without a problem but for kinds, the check finds the elements of unknown kinds, each
once and in the order it looks into them, and nothing else. -/
theorem problems_of_known_structure (hk : page.Keyed) (h : page.problems catalog false = []) :
    ∃ walk, page.LastFirst walk ∧ walk.Perm page.elements.values ∧
      page.problems catalog true =
        (walk.filter fun e => !catalog.contains e.kind).map fun e => .unknownKind e.id e.kind := by
  obtain ⟨htree, hclean⟩ := isTree_of_problems h
  obtain ⟨walk, hwalk, hperm, hproblems⟩ := htree.linked.exists_lastFirst hk catalog true
  refine ⟨walk, hwalk, hperm, ?_⟩
  rw [hproblems, ← flatMap_eq_map_filter]
  apply List.flatMap_congr
  intro e hm
  exact (hclean (hk.mem_values_iff.1 (hperm.mem_iff.1 hm))).problemsAt_kinds

end Page

end PageBuilder
