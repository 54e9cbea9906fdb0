import PageBuilder.Proofs.Page.Integrity
import PageBuilder.Proofs.Results

/-!
# The integrity check on any page

A page is a map under any keys whatever: elements may list each other in a circle, be listed
twice or be stored under ids that are not their own.  Two things are said here of the check on all
of them.

* It ends and never fails.  `Page.survey` passes over an id that no element is stored under, so
  that alone would say nothing about look-ups.  `turn` is the same survey turn by turn with the
  look-up left to fail; `checkWithin_eq` says that it does not, and that the survey takes at most
  one turn for the root and one for every child listed anywhere.
* It finds nothing exactly on `Rooted` pages.  `Rooted` counts over all lists of children at once,
  where `IsTree` goes from an element to its parent.
-/

namespace PageBuilder.Page

variable {page : Page} {catalog : Catalog} {checkKinds : Bool}

/-! ## The survey turn by turn -/

/-- Where a survey stands: what it has found and seen, and the ids it has yet to look into. -/
structure Stand where
  found : List Problem
  seen : List String
  stack : List String

/-- One turn of the survey: the next id is looked up, unless it has been seen. -/
def turn (page : Page) (catalog : Catalog) (checkKinds : Bool) (now : Stand) :
    Except Failure Stand :=
  match now.stack with
  | [] => .ok now
  | id :: stack =>
    if id ∈ now.seen then .ok ⟨now.found ++ [.repeated id], now.seen, stack⟩
    else
      (fun e => ⟨now.found ++ page.problemsAt catalog checkKinds id e, id :: now.seen,
        (e.children.filter page.contains).reverse ++ stack⟩) <$> page.fetch id

/-- The survey, given so many turns. -/
def surveyWithin (page : Page) (catalog : Catalog) (checkKinds : Bool) :
    Nat → Stand → Except Failure Survey
  | turns, now =>
    if now.stack.isEmpty then .ok ⟨now.found, now.seen⟩
    else
      match turns with
      | 0 => .error .endless
      | turns + 1 => page.turn catalog checkKinds now >>= page.surveyWithin catalog checkKinds turns

/-- The check with its survey given so many turns. -/
def checkWithin (page : Page) (catalog : Catalog) (checkKinds : Bool) (turns : Nat) :
    Except Failure (List Problem) :=
  match page.root with
  | none => .ok (if page.elements.isEmpty then [] else [.rootless])
  | some root =>
    match page.get? root with
    | none => .ok [.rootMissing root]
    | some e =>
      (fun found : Survey =>
        e.parent.toList.map (.rootHasParent root) ++ found.problems ++
          ((page.elements.keys.filter fun id => !found.seen.contains id).mergeSort).map
            .unreachable) <$>
        page.surveyWithin catalog checkKinds turns ⟨[], [], [root]⟩

namespace Stand

/-- What a survey comes to from where it stands. -/
def outcome (now : Stand) (page : Page) (catalog : Catalog) (checkKinds : Bool) : Survey :=
  let rest := page.survey catalog checkKinds now.seen now.stack
  ⟨now.found ++ rest.problems, rest.seen⟩

/-- How many turns are left at most. -/
def ahead (now : Stand) (page : Page) : Nat :=
  page.openLinks now.seen + now.stack.length

/-- Elements are stored under all ids that are to be looked into. -/
def Stored (now : Stand) (page : Page) : Prop :=
  ∀ id ∈ now.stack, ∃ e, page.get? id = some e

end Stand

/-- A turn succeeds where all ids are stored; it leaves them so, comes to the same and brings the
end nearer. -/
theorem exists_turn (catalog : Catalog) (checkKinds : Bool) {now : Stand}
    (hstored : now.Stored page) (hmore : now.stack ≠ []) :
    ∃ next, page.turn catalog checkKinds now = .ok next ∧ next.Stored page ∧
      next.outcome page catalog checkKinds = now.outcome page catalog checkKinds ∧
      next.ahead page < now.ahead page := by
  obtain ⟨found, seen, stack⟩ := now
  cases stack with
  | nil => exact absurd rfl hmore
  | cons id stack =>
    have hrest : ∀ x ∈ stack, ∃ e, page.get? x = some e :=
      fun x hx => hstored x (List.mem_cons_of_mem _ hx)
    by_cases hs : id ∈ seen
    · refine ⟨⟨found ++ [.repeated id], seen, stack⟩, by simp [turn, hs], hrest, ?_,
        by simp [Stand.ahead]⟩
      simp only [Stand.outcome]
      rw [survey.eq_2, dif_pos hs]
      simp
    · obtain ⟨e, he⟩ := hstored id List.mem_cons_self
      refine ⟨⟨found ++ page.problemsAt catalog checkKinds id e, id :: seen,
        (e.children.filter page.contains).reverse ++ stack⟩, by simp [turn, hs, fetch, he], ?_, ?_,
        ?_⟩
      · intro x hx
        rcases List.mem_append.1 hx with hx | hx
        · exact contains_iff_get?.1 (List.mem_filter.1 (List.mem_reverse.1 hx)).2
        · exact hrest x hx
      · simp only [Stand.outcome]
        rw [survey.eq_2 page catalog checkKinds seen, dif_neg hs]
        split
        · rename_i hn
          exact absurd (hn.symm.trans he) (by simp)
        · rename_i e' he'
          cases he'.symm.trans he
          simp
      · -- The links of the element are no longer ahead, and no more ids than these are pushed.
        have hopen := openLinksIn_cons_add_le ((page.elements.mem_entries_iff id e).2 he) hs
        have hfilter := List.length_filter_le page.contains e.children
        simp only [Stand.ahead, openLinks, List.length_append, List.length_reverse,
          List.length_cons]
        omega

theorem surveyWithin_eq {turns : Nat} {now : Stand} (hstored : now.Stored page)
    (hturns : now.ahead page ≤ turns) :
    page.surveyWithin catalog checkKinds turns now = .ok (now.outcome page catalog checkKinds) := by
  induction turns generalizing now with
  | zero =>
    have hnil : now.stack = [] := by
      apply List.length_eq_zero_iff.1
      simp only [Stand.ahead] at hturns
      omega
    simp [surveyWithin, Stand.outcome, hnil, survey.eq_1]
  | succ turns ih =>
    by_cases hmore : now.stack = []
    · simp [surveyWithin, Stand.outcome, hmore, survey.eq_1]
    · obtain ⟨next, hturn, hnext, heq, hlt⟩ :=
        exists_turn catalog checkKinds hstored hmore
      simp only [surveyWithin, List.isEmpty_iff, hmore, if_false]
      rw [hturn, Results.ok_bind, ih hnext (by omega), heq]

/-! ## All children listed -/

/-- The children listed on a page, element after element. -/
def listings (page : Page) : List String :=
  page.elements.values.flatMap Element.children

theorem mem_listings_iff {child : String} :
    child ∈ page.listings ↔ ∃ id, page.Lists id child := by
  rw [listings, OrderedMap.values, List.flatMap_map, List.mem_flatMap]
  constructor
  · rintro ⟨⟨id, e⟩, hm, hc⟩
    exact ⟨id, e, (page.elements.mem_entries_iff id e).1 hm, hc⟩
  · rintro ⟨id, e, he, hc⟩
    exact ⟨(id, e), (page.elements.mem_entries_iff id e).2 he, hc⟩

/-- The children that one element lists, and apart from them those that the others list. -/
theorem exists_listings_perm {id : String} {host : Element} (h : page.get? id = some host) :
    ∃ rest : List String, page.listings.Perm (host.children ++ rest) ∧
      ∀ child, child ∈ rest ↔ ∃ other, other ≠ id ∧ page.Lists other child := by
  have hm := (page.elements.mem_entries_iff id host).2 h
  refine ⟨(page.elements.entries.erase (id, host)).flatMap fun entry => entry.2.children, ?_, ?_⟩
  · rw [listings, OrderedMap.values, List.flatMap_map]
    exact (List.perm_cons_erase hm).flatMap_right _
  · intro child
    have hnodup : page.elements.entries.Nodup := page.elements.nodup_keys.of_map
    constructor
    · intro hc
      obtain ⟨⟨other, e⟩, he, hc⟩ := List.mem_flatMap.1 hc
      obtain ⟨hne, hentry⟩ := hnodup.mem_erase_iff.1 he
      have hget : page.get? other = some e := (page.elements.mem_entries_iff other e).1 hentry
      refine ⟨other, ?_, e, hget, hc⟩
      rintro rfl
      cases hget.symm.trans h
      exact hne rfl
    · rintro ⟨other, hne, e, he, hc⟩
      refine List.mem_flatMap.2 ⟨(other, e), hnodup.mem_erase_iff.2 ⟨?_, ?_⟩, hc⟩
      · exact fun heq => hne (congrArg Prod.fst heq)
      · exact (page.elements.mem_entries_iff other e).2 he

/-- A child is listed once on a page, under a given element, exactly when that element lists it
once and no other lists it. -/
theorem count_listings_eq_one_iff {id child : String} {host : Element}
    (h : page.get? id = some host) (hm : child ∈ host.children) :
    page.listings.count child = 1 ↔
      host.children.count child = 1 ∧ ∀ other, page.Lists other child → other = id := by
  obtain ⟨rest, hperm, hrest⟩ := exists_listings_perm h
  have hpos : 0 < host.children.count child := List.count_pos_iff.2 hm
  rw [hperm.count_eq, List.count_append]
  have hnone : rest.count child = 0 ↔ ∀ other, page.Lists other child → other = id := by
    rw [List.count_eq_zero, hrest]
    simp only [not_exists, not_and]
    exact ⟨fun hall other hl => by_contra fun hne => hall other hne hl,
      fun hall other hne hl => hne (hall other hl)⟩
  rw [← hnone]
  omega

theorem openLinks_nil (page : Page) : page.openLinks [] = page.listings.length := by
  rw [openLinks, listings, OrderedMap.values, List.flatMap_map]
  induction page.elements.entries with
  | nil => rfl
  | cons entry rest ih => simp [openLinksIn, ih]

/-- The check, its look-ups left to fail and its survey given a turn for the root and one for every
child listed, comes to what the check finds. -/
theorem checkWithin_eq (page : Page) (catalog : Catalog) (checkKinds : Bool) {turns : Nat}
    (hturns : page.listings.length + 1 ≤ turns) :
    page.checkWithin catalog checkKinds turns = .ok (page.problems catalog checkKinds) := by
  unfold checkWithin problems
  cases hroot : page.root with
  | none => rfl
  | some root =>
    cases hr : page.get? root with
    | none => simp only [hr]
    | some e =>
      simp only [hr]
      rw [surveyWithin_eq]
      · simp [Stand.outcome]
      · intro id hid
        exact ⟨e, by rw [List.mem_singleton.1 hid, hr]⟩
      · simp only [Stand.ahead, openLinks_nil, List.length_singleton]
        exact hturns

/-! ## Trees, counted over all lists of children -/

/-- The elements hang together below a root, each in one place. -/
structure Rooted (page : Page) (root : String) : Prop where
  /-- The root is an element without a parent. -/
  root_stored : ∃ e, page.get? root = some e ∧ e.parent = none
  /-- The root is listed nowhere. -/
  root_unlisted : root ∉ page.listings
  /-- Every child listed is an element. -/
  listed_stored : ∀ child ∈ page.listings, ∃ e, page.get? child = some e
  /-- Every other element is listed once on the whole page. -/
  listed_once : ∀ {id e}, page.get? id = some e → id ≠ root → page.listings.count id = 1
  /-- It is listed by the element it points back to. -/
  listed_under : ∀ {id e}, page.get? id = some e → id ≠ root →
    ∃ parent host, e.parent = some parent ∧ page.get? parent = some host ∧ id ∈ host.children
  /-- Every element is reached from the root. -/
  reached : ∀ {id e}, page.get? id = some e → page.Reaches root id

/-- The plain form of a tree, from the root. -/
theorem IsTree.rooted (h : page.IsTree) {root : String} (hroot : page.root = some root) :
    page.Rooted root where
  root_stored := h.root_stored hroot
  root_unlisted := by
    intro hm
    obtain ⟨id, hl⟩ := mem_listings_iff.1 hm
    obtain ⟨e, he, hp⟩ := h.child_stored hl
    -- What is listed has a parent, and the root has none.
    obtain ⟨r, hr, hn⟩ := h.root_stored hroot
    cases he.symm.trans hr
    exact absurd (hp.symm.trans hn) (by simp)
  listed_stored := by
    intro child hm
    obtain ⟨id, hl⟩ := mem_listings_iff.1 hm
    obtain ⟨e, he, -⟩ := h.child_stored hl
    exact ⟨e, he⟩
  listed_once := by
    intro id e he hne
    obtain ⟨parent, host, -, hhost, hcount, honly⟩ :=
      h.listed_once he fun heq => hne (Option.some.inj (heq.symm.trans hroot))
    have hm : id ∈ host.children := List.count_pos_iff.1 (by omega)
    exact (count_listings_eq_one_iff hhost hm).2 ⟨hcount, honly⟩
  listed_under := by
    intro id e he hne
    obtain ⟨parent, host, hp, hhost, hcount, -⟩ :=
      h.listed_once he fun heq => hne (Option.some.inj (heq.symm.trans hroot))
    exact ⟨parent, host, hp, hhost, List.count_pos_iff.1 (by omega)⟩
  reached := by
    intro id e he
    obtain ⟨root', hroot', hreach⟩ := h.reached he
    cases hroot.symm.trans hroot'
    exact hreach

theorem Rooted.isTree {root : String} (h : page.Rooted root) (hroot : page.root = some root) :
    page.IsTree where
  root_eq_none_iff := by
    obtain ⟨r, hr, -⟩ := h.root_stored
    constructor
    · intro hn
      exact absurd (hroot.symm.trans hn) (by simp)
    · intro hnone
      exact absurd (hr.symm.trans (hnone root)) (by simp)
  root_stored := by
    intro root' hroot'
    cases hroot.symm.trans hroot'
    exact h.root_stored
  listed_once := by
    intro id e he hne
    have hne : id ≠ root := fun heq => hne (heq ▸ hroot)
    obtain ⟨parent, host, hp, hhost, hm⟩ := h.listed_under he hne
    obtain ⟨hcount, honly⟩ := (count_listings_eq_one_iff hhost hm).1 (h.listed_once he hne)
    exact ⟨parent, host, hp, hhost, hcount, honly⟩
  child_stored := by
    intro id child hl
    have hm := mem_listings_iff.2 ⟨id, hl⟩
    obtain ⟨e, he⟩ := h.listed_stored child hm
    have hne : child ≠ root := fun heq => h.root_unlisted (heq ▸ hm)
    -- The element pointed back to is the only one that lists the child.
    obtain ⟨parent, host, hp, hhost, hmem⟩ := h.listed_under he hne
    obtain ⟨-, honly⟩ := (count_listings_eq_one_iff hhost hmem).1 (h.listed_once he hne)
    exact ⟨e, he, by rw [hp, honly id hl]⟩
  reached := fun he => ⟨root, hroot, h.reached he⟩

theorem isTree_iff_rooted :
    page.IsTree ↔ (page.root = none ∧ page.elements.isEmpty = true) ∨
      ∃ root, page.root = some root ∧ page.Rooted root := by
  rw [isEmpty_elements_iff]
  constructor
  · intro h
    cases hroot : page.root with
    | none => exact .inl ⟨rfl, h.root_eq_none_iff.1 hroot⟩
    | some root => exact .inr ⟨root, rfl, h.rooted hroot⟩
  · rintro (⟨hroot, hnone⟩ | ⟨root, hroot, h⟩)
    · exact (linked_of_empty hroot hnone).isTree
    · exact h.isTree hroot

/-! ## The check -/

/-- On every page and with every catalog the check comes to an end without a failure, and what it
finds is nothing exactly when there are neither a root nor elements, or the elements hang together
below the root and the catalog admits each of them. -/
theorem check_ends_and_is_exact (page : Page) (catalog : Catalog) (checkKinds : Bool) :
    (∀ spare, page.checkWithin catalog checkKinds (page.listings.length + 1 + spare) =
        .ok (page.problems catalog checkKinds)) ∧
      (page.problems catalog checkKinds = [] ↔
        (page.root = none ∧ page.elements.isEmpty = true) ∨
          ∃ root, page.root = some root ∧ page.Rooted root ∧
            Admits catalog page checkKinds) := by
  refine ⟨fun spare => checkWithin_eq page catalog checkKinds (Nat.le_add_right _ spare), ?_⟩
  rw [problems_eq_nil_iff, isTree_iff_rooted]
  constructor
  · rintro ⟨hempty | ⟨root, hroot, h⟩, hadmits⟩
    · exact .inl hempty
    · exact .inr ⟨root, hroot, h, hadmits⟩
  · rintro (⟨hroot, hempty⟩ | ⟨root, hroot, h, hadmits⟩)
    · -- Without elements there is none to admit.
      refine ⟨.inl ⟨hroot, hempty⟩, fun he => ?_⟩
      exact absurd ((isEmpty_elements_iff.1 hempty _).symm.trans he) (by simp)
    · exact ⟨.inr ⟨root, hroot, h⟩, hadmits⟩

end PageBuilder.Page
