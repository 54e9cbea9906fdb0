import PageBuilder.Proofs.Draft.Edits
import PageBuilder.Proofs.Markup.Rendering
import PageBuilder.Proofs.Page.Walks

/-!
# The kinds met on a walk

Before anything is written the kinds of all elements are looked up, each when it is met first.  So
what is found lists the kinds in the order in which they are first met (`keys_of_foldlM`), and the
first element of an unknown kind ends the look-up (`foldlM_lookUp_unknown`), since no element before
it can have brought its kind in.  Nothing else can: a tree of known kinds is looked up to its end
(`exists_components`), whatever ids the elements have by themselves.
-/

namespace PageBuilder.Markup

open Results

variable {catalog : Catalog} {page : Page} {found next known : OrderedMap Component} {e : Element}
  {es before after : List Element}

/-! ## One look-up -/

theorem contains_insert (found : OrderedMap Component) (kind other : String)
    (component : Component) : (found.insert kind component).contains other = true ↔
      other = kind ∨ found.contains other = true := by
  rw [OrderedMap.contains, OrderedMap.get?_insert]
  by_cases h : other = kind
  · simp [h]
  · simp [h, OrderedMap.contains]

/-- A look-up that succeeds adds at most the kind it is for, and that only if it is known. -/
theorem lookUp_ok (h : lookUp catalog found e = .ok next) (kind : String) :
    (next.contains kind = true ↔ kind = e.kind ∨ found.contains kind = true) ∧
      (next.contains kind = true → found.contains kind = true ∨ catalog.contains kind = true) := by
  unfold lookUp at h
  split at h
  · rename_i hfound
    cases h
    refine ⟨⟨Or.inr, ?_⟩, Or.inl⟩
    rintro (rfl | hk)
    · exact hfound
    · exact hk
  · obtain ⟨component, hcomponent, rfl⟩ := exists_of_map h
    rw [contains_insert]
    refine ⟨Iff.rfl, ?_⟩
    rintro (rfl | hk)
    · exact Or.inr (Catalog.contains_iff_get?.2 ⟨component, Catalog.require_eq_ok_iff.1 hcomponent⟩)
    · exact Or.inl hk

theorem lookUp_error {failure : Failure} (h : lookUp catalog found e = .error failure) :
    catalog.contains e.kind = false ∧
      failure = .rejected (.unknownKind e.kind (some e.id)) := by
  unfold lookUp at h
  split at h
  · cases h
  · cases hc : catalog.contains e.kind with
    | false =>
      rw [Catalog.require_unknown hc] at h
      cases h
      exact ⟨rfl, rfl⟩
    | true =>
      obtain ⟨component, hcomponent⟩ := Catalog.contains_iff_get?.1 hc
      rw [Catalog.require_eq_ok_iff.2 hcomponent] at h
      cases h

theorem lookUp_of_contains (h : found.contains e.kind = true) :
    lookUp catalog found e = .ok found :=
  if_pos h

theorem lookUp_of_not_contains (h : found.contains e.kind = false)
    (hkind : catalog.contains e.kind = true) :
    lookUp catalog found e = .ok (found.insert e.kind (catalog.componentOf e.kind)) := by
  rw [lookUp, h, if_neg Bool.false_ne_true,
    Catalog.require_eq_ok_iff.2 (Catalog.get?_of_contains hkind), map_ok]

/-- A look-up adds nothing but the component of the kind that it is for. -/
theorem of_get?_lookUp (h : lookUp catalog found e = .ok next) {kind : String}
    {component : Component} (hget : next.get? kind = some component) :
    found.get? kind = some component ∨
      e.kind = kind ∧ catalog.componentOf kind = component := by
  cases hmet : found.contains e.kind with
  | true =>
    rw [lookUp_of_contains hmet] at h
    cases h
    exact Or.inl hget
  | false =>
    cases hkind : catalog.contains e.kind with
    | true =>
      rw [lookUp_of_not_contains hmet hkind] at h
      cases h
      rw [OrderedMap.get?_insert] at hget
      split at hget
      case isTrue heq => exact Or.inr ⟨heq.symm, heq ▸ Option.some.inj hget⟩
      case isFalse => exact Or.inl hget
    | false =>
      rw [lookUp, hmet, if_neg Bool.false_ne_true, Catalog.require_unknown hkind] at h
      cases h

/-! ## Look-ups in a row -/

/-- Kinds are listed in the order in which they are first met. -/
theorem keys_of_foldlM (hkinds : ∀ e ∈ es, catalog.contains e.kind = true)
    (h : es.foldlM (lookUp catalog) found = .ok known) :
    known.keys =
      found.keys ++ ((es.map Element.kind).filter fun kind => !found.contains kind).eraseDups := by
  induction es generalizing found with
  | nil =>
    cases h
    simp
  | cons e rest ih =>
    obtain ⟨hkind, hrest⟩ := List.forall_mem_cons.1 hkinds
    rw [List.foldlM_cons] at h
    cases hc : found.contains e.kind with
    | true =>
      rw [lookUp_of_contains hc, ok_bind] at h
      rw [ih hrest h, List.map_cons, List.filter_cons_of_neg (by simp [hc])]
    | false =>
      rw [lookUp_of_not_contains hc hkind, ok_bind] at h
      have hnew : e.kind ∉ found.keys := by
        rw [← OrderedMap.contains_iff, hc]
        exact Bool.false_ne_true
      -- From now on the kind is among those found, so it is passed over.
      have hlater : ∀ kind, (!(found.insert e.kind (catalog.componentOf e.kind)).contains kind) =
          (!(kind == e.kind) && !found.contains kind) := by
        intro kind
        rw [OrderedMap.contains, OrderedMap.get?_insert]
        by_cases hk : kind = e.kind <;> simp [hk, OrderedMap.contains]
      rw [ih hrest h, OrderedMap.keys_insert, if_neg hnew, List.map_cons,
        List.filter_cons_of_pos (by simp [hc]), List.eraseDups_cons, List.filter_filter]
      simp [hlater]

/-- Components that are found are those of the kinds met. -/
theorem mem_values_of_foldlM (hkinds : ∀ e ∈ es, catalog.contains e.kind = true)
    (h : es.foldlM (lookUp catalog) .empty = .ok known) {component : Component} :
    component ∈ known.values ↔ ∃ e ∈ es, catalog.componentOf e.kind = component := by
  obtain ⟨known', hknown, hget⟩ := foldlM_lookUp hkinds .empty
  cases h.symm.trans hknown
  have hentry : ∀ kind, known.get? kind = some component ↔
      kind ∈ es.map Element.kind ∧ catalog.componentOf kind = component := by
    intro kind
    rw [hget]
    by_cases hk : kind ∈ es.map Element.kind <;> simp [hk]
  constructor
  · intro hm
    obtain ⟨⟨kind, c⟩, hmem, rfl⟩ := List.mem_map.1 hm
    obtain ⟨hk, hc⟩ := (hentry kind).1 ((known.mem_entries_iff kind c).1 hmem)
    obtain ⟨e, he, rfl⟩ := List.mem_map.1 hk
    exact ⟨e, he, hc⟩
  · rintro ⟨e, he, hc⟩
    have hk := (hentry e.kind).2 ⟨List.mem_map_of_mem he, hc⟩
    exact List.mem_map.2 ⟨(e.kind, component), (known.mem_entries_iff _ _).2 hk, rfl⟩

/-- The report of an element of an unknown kind. -/
def unknownKind (e : Element) : Failure :=
  .rejected (.unknownKind e.kind (some e.id))

/-- The first element of an unknown kind is reported. -/
theorem foldlM_lookUp_unknown (hbefore : ∀ x ∈ before, catalog.contains x.kind = true)
    (hkind : catalog.contains e.kind = false) :
    (before ++ e :: after).foldlM (lookUp catalog) .empty = .error (unknownKind e) := by
  obtain ⟨known, hknown, hget⟩ := foldlM_lookUp hbefore .empty
  have hmet : e.kind ∉ before.map Element.kind := by
    intro hm
    obtain ⟨x, hx, heq⟩ := List.mem_map.1 hm
    exact absurd (hbefore x hx) (by simp [heq, hkind])
  have hc : known.contains e.kind = false := by
    simp [OrderedMap.contains, hget, hmet]
  rw [List.foldlM_append, hknown, ok_bind, List.foldlM_cons, lookUp, hc,
    if_neg Bool.false_ne_true, Catalog.require_unknown hkind, map_error, error_bind]
  rfl

/-! ## Look-ups on a walk -/

theorem components_eq_walk (catalog : Catalog) {root : String} (h : page.root = some root) :
    components catalog page = page.walk (lookUp catalog) .empty [(root, page.generations)] := by
  rw [components, h]
  rfl

/-- On a tree of known kinds all are found. -/
theorem exists_components (hl : page.Linked)
    (hkinds : ∀ {id e}, page.get? id = some e → catalog.contains e.kind = true) :
    ∃ known, components catalog page = .ok known := by
  cases hroot : page.root with
  | none => exact ⟨_, by rw [components, hroot]⟩
  | some root =>
    rw [components_eq_walk catalog hroot]
    cases hwalk : page.walk (lookUp catalog) .empty [(root, page.generations)] with
    | ok known => exact ⟨known, rfl⟩
    | error failure =>
      obtain ⟨x, f, found, hf, hfail⟩ := hl.visit_of_walk_error (Page.spared_root hroot) hwalk
      exact absurd (hkinds hf) (by simp [(lookUp_error hfail).1])

/-- What is found under a kind is the component of that kind, and an element that the walk comes by
has it. -/
theorem of_get?_components (h : components catalog page = .ok known) {kind : String}
    {component : Component} (hget : known.get? kind = some component) :
    catalog.componentOf kind = component ∧ ∃ e, page.Shown e ∧ e.kind = kind := by
  cases hroot : page.root with
  | none =>
    rw [components, hroot] at h
    cases h
    cases hget
  | some root =>
    rw [components_eq_walk catalog hroot] at h
    refine Page.walk_keeps_below (fun found => found.get? kind = some component →
        catalog.componentOf kind = component ∧ ∃ e, page.Shown e ∧ e.kind = kind)
      (page.Reaches root) .tail ?_ h (List.forall_mem_singleton.2 .refl)
      (fun hempty => by cases hempty) hget
    intro id e found next hr he hok hgood hnext
    obtain hfound | ⟨rfl, hcomponent⟩ := of_get?_lookUp hok hnext
    · exact hgood hfound
    · exact ⟨hcomponent, e, ⟨root, id, hroot, hr, he⟩, rfl⟩

/-- The component of every element that the walk comes by is found. -/
theorem get?_of_shown (h : components catalog page = .ok known) (he : page.Shown e) :
    known.get? e.kind = some (catalog.componentOf e.kind) := by
  obtain ⟨root, id, hroot, hr, he⟩ := he
  have hwalk := h
  rw [components_eq_walk catalog hroot] at hwalk
  have hmet : known.contains e.kind = true :=
    Page.walk_visits (fun found e => found.contains e.kind = true)
      (fun hok => ((lookUp_ok hok _).1).2 (Or.inl rfl))
      (fun hok hm => ((lookUp_ok hok _).1).2 (Or.inr hm)) hwalk List.mem_cons_self hr he
  obtain ⟨component, hget⟩ := Option.isSome_iff_exists.1 hmet
  exact (of_get?_components h hget).1 ▸ hget

/-- The components that are found are those of the elements that the walk comes by, on any page. -/
theorem mem_values_components (h : components catalog page = .ok known) {component : Component} :
    component ∈ known.values ↔ ∃ e, page.Shown e ∧ catalog.componentOf e.kind = component := by
  constructor
  · intro hm
    obtain ⟨⟨kind, c⟩, hentry, rfl⟩ := List.mem_map.1 hm
    obtain ⟨hc, e, he, rfl⟩ := of_get?_components h ((known.mem_entries_iff kind c).1 hentry)
    exact ⟨e, he, hc⟩
  · rintro ⟨e, he, rfl⟩
    exact List.mem_map.2 ⟨_, (known.mem_entries_iff _ _).2 (get?_of_shown h he), rfl⟩

end PageBuilder.Markup
