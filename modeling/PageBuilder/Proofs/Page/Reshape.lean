import PageBuilder.Proofs.Page.Links

/-!
# Reshaping a tree

Edits cut a subtree out, give it new ids, hang one tree into another, move a subtree to a new
parent, or drop a subtree.  Each is stated here by what it does to the element of every id, not by
how a page is updated, and each gives a tree again.  In every case the work is in `deep`: the way
up from an element is followed until it leaves the part that changed.
-/

namespace PageBuilder.Page

variable {page : Page}

/-! ## Positions in a list of children -/

theorem mem_insertAt {index : Option Int} {x y : String} {children : List String} :
    y ∈ insertAt index x children ↔ y = x ∨ y ∈ children :=
  List.mem_insertIdx (clamp_le index children.length)

theorem nodup_insertAt {index : Option Int} {x : String} {children : List String}
    (hn : children.Nodup) (hx : x ∉ children) : (insertAt index x children).Nodup :=
  (List.perm_insertIdx x children (clamp_le index children.length)).nodup_iff.2
    (List.nodup_cons.2 ⟨hx, hn⟩)

/-! ## Cutting out -/

/-- A page holds what another one has at and below an element, and that element has no parent. -/
structure CutOut (page : Page) (top : String) (part : Page) : Prop where
  root : part.root = some top
  get?_top : ∃ e, page.get? top = some e ∧ part.get? top = some { e with parent := none }
  get?_below : ∀ {x}, x ≠ top → page.Reaches top x → part.get? x = page.get? x
  get?_outside : ∀ {x}, ¬ page.Reaches top x → part.get? x = none

/-- What is in the part was below its top. -/
theorem CutOut.reaches {top : String} {part : Page} (h : page.CutOut top part) {x : String}
    {e : Element} (he : part.get? x = some e) : page.Reaches top x := by
  by_contra hr
  exact absurd ((h.get?_outside hr).symm.trans he) (by simp)

/-- An element of the part is one of the page, but for its parent. -/
theorem CutOut.get?_page {top : String} {part : Page} (h : page.CutOut top part) {x : String}
    {e : Element} (he : part.get? x = some e) :
    ∃ f, page.get? x = some f ∧ e.children = f.children ∧
      (x = top ∧ e.parent = none ∨ x ≠ top ∧ e.parent = f.parent) := by
  by_cases hx : x = top
  · obtain ⟨f, hf, htop⟩ := h.get?_top
    subst hx
    cases he.symm.trans htop
    exact ⟨f, hf, rfl, Or.inl ⟨rfl, rfl⟩⟩
  · exact ⟨e, (h.get?_below hx (h.reaches he)).symm.trans he, rfl, Or.inr ⟨hx, rfl⟩⟩

/-- An element at or below the top is in the part, the top without its parent. -/
theorem CutOut.get?_cut {top : String} {part : Page} (h : page.CutOut top part) {x : String}
    {e : Element} (hr : page.Reaches top x) (he : page.get? x = some e) :
    part.get? x = some { e with parent := if x = top then none else e.parent } := by
  split_ifs with hx
  · obtain ⟨t, ht, htop⟩ := h.get?_top
    subst hx
    cases he.symm.trans ht
    exact htop
  · exact (h.get?_below hx hr).trans he

/-- The children of an element of the part are in the part. -/
theorem CutOut.child_stored {top : String} {part : Page} (h : page.CutOut top part)
    (hl : page.Linked) {x child : String} {e : Element} (he : part.get? x = some e)
    (hm : child ∈ e.children) : ∃ c, part.get? child = some c ∧ c.parent = some x := by
  obtain ⟨f, hf, hc, -⟩ := h.get?_page he
  have hlist : page.Lists x child := ⟨f, hf, hc ▸ hm⟩
  have hr := h.reaches he
  have hne : child ≠ top := fun heq => hl.not_reaches_of_lists hlist (heq ▸ hr)
  rw [h.get?_below hne (hr.tail hlist)]
  exact hl.child_stored hf (hc ▸ hm)

/-- What an element at or below the top lists is listed in the part. -/
theorem CutOut.exists_lists {top : String} {part : Page} (h : page.CutOut top part)
    {x child : String} (hr : page.Reaches top x) (hlist : page.Lists x child) :
    part.Lists x child := by
  obtain ⟨f, hf, hm⟩ := hlist
  by_cases hx : x = top
  · obtain ⟨t, ht, htop⟩ := h.get?_top
    subst hx
    cases ht.symm.trans hf
    exact ⟨_, htop, hm⟩
  · exact ⟨f, (h.get?_below hx hr).trans hf, hm⟩

/-- A subtree of a tree is a tree. -/
theorem Linked.cutOut (hl : page.Linked) {top : String} {part : Page}
    (h : page.CutOut top part) : part.Linked where
  root_stored := by
    intro root hr
    obtain ⟨t, -, htop⟩ := h.get?_top
    cases h.root.symm.trans hr
    exact ⟨_, htop, rfl⟩
  child_stored := h.child_stored hl
  listed := by
    intro x e parent he hp
    obtain ⟨f, hf, -, ⟨-, hn⟩ | ⟨hne, hpf⟩⟩ := h.get?_page he
    · exact absurd (hn.symm.trans hp) (by simp)
    · have hlist : page.Lists parent x := hl.listed hf (hpf.symm.trans hp)
      rcases hl.reaches_parent (h.reaches he) hlist with heq | hr
      · exact absurd heq.symm hne
      · exact h.exists_lists hr hlist
  nodup_children := by
    intro x e he
    obtain ⟨f, hf, hc, -⟩ := h.get?_page he
    exact hc ▸ hl.nodup_children hf
  deep := by
    intro x e he
    have hr := h.reaches he
    clear he
    induction hr with
    | refl => exact ⟨0, h.root⟩
    | @tail b c hr hlist ih =>
      obtain ⟨d, hd⟩ := ih
      obtain ⟨f, hf, hm⟩ := h.exists_lists hr hlist
      obtain ⟨g, hg, hp⟩ := h.child_stored hl hf hm
      exact ⟨d + 1, g, b, hg, hp, hd⟩

/-! ## Hanging in -/

/-- `result` is `page` with the elements of `part` added, whose root hangs under `parent`, or is
the root when there is none. -/
structure Grafted (page part : Page) (parent : Option String) (index : Option Int) (top : String)
    (result : Page) : Prop where
  part_root : part.root = some top
  root : result.root = if parent.isNone then some top else page.root
  apart : ∀ {x q}, part.get? x = some q → page.get? x = none
  host : (parent = none ∧ page.root = none) ∨
    ∃ id e, parent = some id ∧ page.get? id = some e
  get?_part : ∀ {x q}, part.get? x = some q →
    result.get? x = some (if x = top then { q with parent := parent } else q)
  get?_host : ∀ {x e}, page.get? x = some e → parent = some x →
    result.get? x = some { e with children := insertAt index top e.children }
  get?_page : ∀ {x}, part.get? x = none → parent ≠ some x → result.get? x = page.get? x

namespace Grafted

variable {part result : Page} {parent : Option String} {index : Option Int} {top : String}

/-- The two pages have no element in common. -/
theorem not_part (h : page.Grafted part parent index top result) {x : String} {e : Element}
    (he : page.get? x = some e) : part.get? x = none := by
  cases hq : part.get? x with
  | none => rfl
  | some q => exact absurd ((h.apart hq).symm.trans he) (by simp)

/-- An element of the page is kept, but for the children of the new parent. -/
theorem get?_kept (h : page.Grafted part parent index top result) {x : String} {e : Element}
    (he : page.get? x = some e) :
    ∃ f, result.get? x = some f ∧ f.parent = e.parent ∧
      ∀ child, child ∈ f.children ↔ (child = top ∧ parent = some x) ∨ child ∈ e.children := by
  by_cases hx : parent = some x
  · refine ⟨_, h.get?_host he hx, rfl, fun child => ?_⟩
    rw [mem_insertAt]
    simp [hx]
  · exact ⟨e, (h.get?_page (h.not_part he) hx).trans he, rfl, fun child => by simp [hx]⟩

/-- An element of the part is kept, but for the parent of its root. -/
theorem get?_hung (h : page.Grafted part parent index top result) {x : String} {q : Element}
    (hq : part.get? x = some q) :
    ∃ f, result.get? x = some f ∧ f.children = q.children ∧ (x ≠ top → f.parent = q.parent) := by
  refine ⟨_, h.get?_part hq, ?_, fun hne => ?_⟩
  · split <;> rfl
  · rw [if_neg hne]

/-- The top of the part is given its new parent. -/
theorem get?_top (h : page.Grafted part parent index top result) (hp : part.Linked) :
    ∃ t, part.get? top = some t ∧ t.parent = none ∧
      result.get? top = some { t with parent := parent } := by
  obtain ⟨t, ht, htn⟩ := hp.root_stored h.part_root
  exact ⟨t, ht, htn, by simpa using h.get?_part ht⟩

/-- An element of the result is one of the part or one of the page. -/
theorem get?_result (h : page.Grafted part parent index top result) {x : String} {e : Element}
    (he : result.get? x = some e) :
    (∃ q, part.get? x = some q) ∨ ∃ f, page.get? x = some f := by
  cases hq : part.get? x with
  | some q => exact Or.inl ⟨q, rfl⟩
  | none =>
    right
    by_cases hx : parent = some x
    · rcases h.host with ⟨hn, -⟩ | ⟨id, f, hid, hf⟩
      · exact absurd (hn.symm.trans hx) (by simp)
      · cases hid.symm.trans hx
        exact ⟨f, hf⟩
    · exact ⟨e, (h.get?_page hq hx).symm.trans he⟩

/-- The way up is kept in the page. -/
theorem atDepth_page (h : page.Grafted part parent index top result) :
    ∀ {d x}, page.AtDepth d x → result.AtDepth d x := by
  intro d
  induction d with
  | zero =>
    intro x hd
    rcases h.host with ⟨-, hn⟩ | ⟨id, -, hid, -⟩
    · exact absurd (hn.symm.trans hd) (by simp)
    · exact h.root.trans (by simpa [hid, AtDepth] using hd)
  | succ d ih =>
    rintro x ⟨e, y, he, hy, hd⟩
    obtain ⟨f, hf, hpf, -⟩ := h.get?_kept he
    exact ⟨f, y, hf, hpf.trans hy, ih hd⟩

/-- The top lies one level below its new parent, or at the root. -/
theorem exists_atDepth_top (h : page.Grafted part parent index top result) (hl : page.Linked)
    (hp : part.Linked) : ∃ k, result.AtDepth k top := by
  obtain ⟨t, -, -, htop⟩ := h.get?_top hp
  rcases h.host with ⟨hn, -⟩ | ⟨id, e, hid, he⟩
  · exact ⟨0, h.root.trans (by simp [hn])⟩
  · obtain ⟨d, hd⟩ := hl.deep he
    exact ⟨d + 1, _, id, htop, hid, h.atDepth_page hd⟩

/-- The way up in the part goes on from the new parent. -/
theorem exists_atDepth_part (h : page.Grafted part parent index top result) (hl : page.Linked)
    (hp : part.Linked) : ∀ {d x}, part.AtDepth d x → ∃ d', result.AtDepth d' x := by
  intro d
  induction d with
  | zero =>
    intro x hd
    cases h.part_root.symm.trans hd
    exact h.exists_atDepth_top hl hp
  | succ d ih =>
    intro x hd
    obtain ⟨q, y, hq, hy, hd'⟩ := id hd
    obtain ⟨f, hf, -, hpf⟩ := h.get?_hung hq
    have hne : x ≠ top := by
      intro heq
      have := hp.atDepth_unique hd (show part.AtDepth 0 x from heq ▸ h.part_root)
      omega
    obtain ⟨d', hd'⟩ := ih hd'
    exact ⟨d' + 1, f, y, hf, (hpf hne).trans hy, hd'⟩

/-- The root is the old one, or the top if there was none. -/
theorem root_stored (h : page.Grafted part parent index top result) (hl : page.Linked)
    (hp : part.Linked) {root : String} (hr : result.root = some root) :
    ∃ e, result.get? root = some e ∧ e.parent = none := by
  obtain ⟨t, -, -, htop⟩ := h.get?_top hp
  have hroot := h.root.symm.trans hr
  rcases h.host with ⟨hn, -⟩ | ⟨id, e, hid, he⟩
  · obtain rfl : top = root := by simpa [hn] using hroot
    exact ⟨_, htop, hn⟩
  · obtain ⟨f, hf, hfn⟩ := hl.root_stored (by simpa [hid] using hroot)
    obtain ⟨g, hg, hgp, -⟩ := h.get?_kept hf
    exact ⟨g, hg, hgp.trans hfn⟩

/-- A child is one of the page, one of the part, or the top, and points back in each case. -/
theorem child_stored (h : page.Grafted part parent index top result) (hl : page.Linked)
    (hp : part.Linked) {x child : String} {e : Element} (he : result.get? x = some e)
    (hm : child ∈ e.children) : ∃ c, result.get? child = some c ∧ c.parent = some x := by
  obtain ⟨t, ht, htn, htop⟩ := h.get?_top hp
  rcases h.get?_result he with ⟨q, hq⟩ | ⟨f, hf⟩
  · obtain ⟨g, hg, hc, -⟩ := h.get?_hung hq
    cases he.symm.trans hg
    obtain ⟨c, hcq, hcp⟩ := hp.child_stored hq (hc ▸ hm)
    obtain ⟨c', hc', -, hcp'⟩ := h.get?_hung hcq
    refine ⟨c', hc', (hcp' ?_).trans hcp⟩
    intro heq
    -- The root of the part is nobody's child there.
    subst heq
    cases ht.symm.trans hcq
    exact absurd (htn.symm.trans hcp) (by simp)
  · obtain ⟨g, hg, -, hmem⟩ := h.get?_kept hf
    cases he.symm.trans hg
    rcases (hmem child).1 hm with ⟨rfl, hx⟩ | hm
    · exact ⟨_, htop, hx⟩
    · obtain ⟨c, hc, hcp⟩ := hl.child_stored hf hm
      obtain ⟨c', hc', hcp', -⟩ := h.get?_kept hc
      exact ⟨c', hc', hcp'.trans hcp⟩

/-- Likewise for parents. -/
theorem listed (h : page.Grafted part parent index top result) (hl : page.Linked)
    (hp : part.Linked) {x y : String} {e : Element} (he : result.get? x = some e)
    (hy : e.parent = some y) : ∃ host, result.get? y = some host ∧ x ∈ host.children := by
  rcases h.get?_result he with ⟨q, hq⟩ | ⟨f, hf⟩
  · by_cases hx : x = top
    · subst hx
      obtain ⟨t, -, -, htop⟩ := h.get?_top hp
      cases he.symm.trans htop
      rcases h.host with ⟨hn, -⟩ | ⟨id, e, hid, he⟩
      · exact absurd (hn.symm.trans hy) (by simp)
      · cases hid.symm.trans hy
        obtain ⟨f, hf, -, hmem⟩ := h.get?_kept he
        exact ⟨f, hf, (hmem _).2 (Or.inl ⟨rfl, hid⟩)⟩
    · obtain ⟨g, hg, -, hgp⟩ := h.get?_hung hq
      cases he.symm.trans hg
      obtain ⟨host, hhost, hm⟩ := hp.listed hq ((hgp hx).symm.trans hy)
      obtain ⟨host', hhost', hc, -⟩ := h.get?_hung hhost
      exact ⟨host', hhost', hc ▸ hm⟩
  · obtain ⟨g, hg, hgp, -⟩ := h.get?_kept hf
    cases he.symm.trans hg
    obtain ⟨host, hhost, hm⟩ := hl.listed hf (hgp.symm.trans hy)
    obtain ⟨host', hhost', -, hmem⟩ := h.get?_kept hhost
    exact ⟨host', hhost', (hmem x).2 (Or.inr hm)⟩

/-- The top was no child of anything before. -/
theorem nodup_children (h : page.Grafted part parent index top result) (hl : page.Linked)
    (hp : part.Linked) {x : String} {e : Element} (he : result.get? x = some e) :
    e.children.Nodup := by
  rcases h.get?_result he with ⟨q, hq⟩ | ⟨f, hf⟩
  · obtain ⟨g, hg, hc, -⟩ := h.get?_hung hq
    cases he.symm.trans hg
    exact hc ▸ hp.nodup_children hq
  · by_cases hx : parent = some x
    · cases he.symm.trans (h.get?_host hf hx)
      apply nodup_insertAt (hl.nodup_children hf)
      intro hm
      obtain ⟨t, ht, -⟩ := h.get?_top hp
      obtain ⟨c, hc, -⟩ := hl.child_stored hf hm
      exact absurd ((h.apart ht).symm.trans hc) (by simp)
    · exact hl.nodup_children ((h.get?_page (h.not_part hf) hx).symm.trans he)

end Grafted

/-- A tree with another one hung into it is a tree. -/
theorem Linked.grafted {part result : Page} {parent : Option String} {index : Option Int}
    {top : String} (hl : page.Linked) (hp : part.Linked)
    (h : page.Grafted part parent index top result) : result.Linked where
  root_stored := h.root_stored hl hp
  child_stored := h.child_stored hl hp
  listed := h.listed hl hp
  nodup_children := h.nodup_children hl hp
  deep := by
    intro x e he
    rcases h.get?_result he with ⟨q, hq⟩ | ⟨f, hf⟩
    · obtain ⟨d, hd⟩ := hp.deep hq
      exact h.exists_atDepth_part hl hp hd
    · obtain ⟨d, hd⟩ := hl.deep hf
      exact ⟨d, h.atDepth_page hd⟩

/-! ## New ids -/

/-- `result` is `page` under other ids. -/
structure Renamed (page : Page) (name : String → String) (result : Page) : Prop where
  root : result.root = page.root.map name
  injective : ∀ {x y e f}, page.get? x = some e → page.get? y = some f → name x = name y → x = y
  get?_name : ∀ {x e}, page.get? x = some e → ∃ f, result.get? (name x) = some f ∧
    f.children = e.children.map name ∧ f.parent = e.parent.map name
  get?_result : ∀ {y f}, result.get? y = some f → ∃ x e, page.get? x = some e ∧ name x = y

/-- Depths do not change under new ids. -/
theorem Renamed.atDepth {name : String → String} {result : Page} (h : page.Renamed name result) :
    ∀ {d x}, page.AtDepth d x → result.AtDepth d (name x) := by
  intro d
  induction d with
  | zero => exact fun {x} hd => h.root.trans (congrArg (Option.map name) hd)
  | succ d ih =>
    rintro x ⟨e, y, he, hy, hd⟩
    obtain ⟨f, hf, -, hp⟩ := h.get?_name he
    exact ⟨f, name y, hf, by simp [hp, hy], ih hd⟩

/-- Every element of the result has another name in the page. -/
theorem Renamed.get?_page {name : String → String} {result : Page}
    (h : page.Renamed name result) {y : String} {f : Element} (hf : result.get? y = some f) :
    ∃ x e, name x = y ∧ page.get? x = some e ∧ f.children = e.children.map name ∧
      f.parent = e.parent.map name := by
  obtain ⟨x, e, he, rfl⟩ := h.get?_result hf
  obtain ⟨g, hg, hc, hp⟩ := h.get?_name he
  cases hf.symm.trans hg
  exact ⟨x, e, rfl, he, hc, hp⟩

/-- A tree under new ids is a tree. -/
theorem Linked.renamed {name : String → String} {result : Page} (hl : page.Linked)
    (h : page.Renamed name result) : result.Linked where
  root_stored := by
    intro root hr
    obtain ⟨r, hroot, rfl⟩ := Option.map_eq_some_iff.1 (h.root.symm.trans hr)
    obtain ⟨e, he, hn⟩ := hl.root_stored hroot
    obtain ⟨f, hf, -, hp⟩ := h.get?_name he
    exact ⟨f, hf, by simp [hp, hn]⟩
  child_stored := by
    intro y f child hf hm
    obtain ⟨x, e, rfl, he, hc, -⟩ := h.get?_page hf
    rw [hc] at hm
    obtain ⟨c, hcm, rfl⟩ := List.mem_map.1 hm
    obtain ⟨k, hk, hkp⟩ := hl.child_stored he hcm
    obtain ⟨g, hg, -, hgp⟩ := h.get?_name hk
    exact ⟨g, hg, by simp [hgp, hkp]⟩
  listed := by
    intro y f parent hf hp
    obtain ⟨x, e, rfl, he, -, hpf⟩ := h.get?_page hf
    obtain ⟨q, hq, rfl⟩ := Option.map_eq_some_iff.1 (hpf.symm.trans hp)
    obtain ⟨host, hhost, hm⟩ := hl.listed he hq
    obtain ⟨g, hg, hgc, -⟩ := h.get?_name hhost
    exact ⟨g, hg, hgc ▸ List.mem_map.2 ⟨x, hm, rfl⟩⟩
  nodup_children := by
    intro y f hf
    obtain ⟨x, e, rfl, he, hc, -⟩ := h.get?_page hf
    rw [hc]
    -- Children are stored, and on what is stored the names differ.
    apply (hl.nodup_children he).map_on
    intro a ha b hb hab
    obtain ⟨ca, hca, -⟩ := hl.child_stored he ha
    obtain ⟨cb, hcb, -⟩ := hl.child_stored he hb
    exact h.injective hca hcb hab
  deep := by
    intro y f hf
    obtain ⟨x, e, rfl, he, -⟩ := h.get?_page hf
    obtain ⟨d, hd⟩ := hl.deep he
    exact ⟨d, h.atDepth hd⟩

/-- A page with the links of a tree is a tree, whatever else its elements say. -/
theorem Linked.congr {result : Page} (hl : page.Linked) (hroot : result.root = page.root)
    (hkept : ∀ {x e}, page.get? x = some e →
      ∃ f, result.get? x = some f ∧ f.children = e.children ∧ f.parent = e.parent)
    (hback : ∀ {x f}, result.get? x = some f → ∃ e, page.get? x = some e) : result.Linked := by
  have hrenamed : page.Renamed id result := by
    refine ⟨by simp [hroot], fun _ _ heq => heq, ?_, ?_⟩
    · intro x e he
      obtain ⟨f, hf, hc, hp⟩ := hkept he
      exact ⟨f, hf, by simp [hc], by simp [hp]⟩
    · intro y f hf
      obtain ⟨e, he⟩ := hback hf
      exact ⟨y, e, he, rfl⟩
  exact hl.renamed hrenamed

/-! ## Dropping -/

/-- `result` is `page` without an element and all below it. -/
structure Pruned (page : Page) (top parent : String) (result : Page) : Prop where
  root : result.root = page.root
  listed : page.Lists parent top
  get?_below : ∀ {x}, page.Reaches top x → result.get? x = none
  get?_parent : ∀ {e}, page.get? parent = some e →
    result.get? parent = some { e with children := e.children.erase top }
  get?_other : ∀ {x}, ¬ page.Reaches top x → x ≠ parent → result.get? x = page.get? x

/-- What is left is an element of the page, but for the child taken from the parent. -/
theorem Pruned.get?_page {top parent : String} {result : Page} (hl : page.Linked)
    (h : page.Pruned top parent result) {x : String} {f : Element} (hf : result.get? x = some f) :
    ¬ page.Reaches top x ∧ ∃ e, page.get? x = some e ∧ f.parent = e.parent ∧
      f.children.Nodup ∧ ∀ child, child ∈ f.children ↔ child ≠ top ∧ child ∈ e.children := by
  have hr : ¬ page.Reaches top x := fun hr =>
    absurd ((h.get?_below hr).symm.trans hf) (by simp)
  refine ⟨hr, ?_⟩
  by_cases hx : x = parent
  · subst hx
    obtain ⟨e, he, -⟩ := h.listed
    cases hf.symm.trans (h.get?_parent he)
    have hn := hl.nodup_children he
    exact ⟨e, he, rfl, hn.erase top, fun child => hn.mem_erase_iff⟩
  · have he := (h.get?_other hr hx).symm.trans hf
    refine ⟨f, he, rfl, hl.nodup_children he, fun child => ⟨fun hm => ⟨?_, hm⟩, (·.2)⟩⟩
    intro heq
    exact hx (hl.lists_unique ⟨f, he, heq ▸ hm⟩ h.listed)

/-- An element outside of what is dropped loses at most the top from its children. -/
theorem Pruned.get?_kept {top parent : String} {result : Page} (hl : page.Linked)
    (h : page.Pruned top parent result) {x : String} {e : Element} (he : page.get? x = some e)
    (hr : ¬ page.Reaches top x) : ∃ f, result.get? x = some f ∧ f.parent = e.parent ∧
      ∀ child, child ∈ f.children ↔ child ≠ top ∧ child ∈ e.children := by
  have hf : ∃ f, result.get? x = some f := by
    by_cases hx : x = parent
    · subst hx
      exact ⟨_, h.get?_parent he⟩
    · exact ⟨e, (h.get?_other hr hx).trans he⟩
  obtain ⟨f, hf⟩ := hf
  obtain ⟨-, e', he', hp, -, hmem⟩ := h.get?_page hl hf
  cases he.symm.trans he'
  exact ⟨f, hf, hp, hmem⟩

/-- What lies above an element that is left is left too. -/
theorem not_reaches_of_child {top x y : String} (hlist : page.Lists y x)
    (hr : ¬ page.Reaches top x) : ¬ page.Reaches top y :=
  fun hry => hr (hry.tail hlist)

/-- It stays as deep as it was, as the way to it does not lead through the top. -/
theorem Pruned.atDepth {top parent : String} {result : Page} (hl : page.Linked)
    (h : page.Pruned top parent result) :
    ∀ {d x}, page.AtDepth d x → ¬ page.Reaches top x → result.AtDepth d x := by
  intro d
  induction d with
  | zero => exact fun hd _ => h.root.trans hd
  | succ d ih =>
    rintro x ⟨e, y, he, hy, hd⟩ hr
    obtain ⟨f, hf, hp, -⟩ := h.get?_kept hl he hr
    have hry := not_reaches_of_child (hl.lists_of_parent he hy) hr
    exact ⟨f, y, hf, hp.trans hy, ih hd hry⟩

/-- A tree without one of its subtrees is a tree. -/
theorem Linked.pruned {top parent : String} {result : Page} (hl : page.Linked)
    (h : page.Pruned top parent result) : result.Linked where
  root_stored := by
    intro root hroot
    obtain ⟨e, he, hn⟩ := hl.root_stored (h.root.symm.trans hroot)
    have hlists (host : String) : ¬ page.Lists host root := fun hlist =>
      absurd (hn.symm.trans (hl.parent_of_lists hlist he)) (by simp)
    -- The dropped element and what is below it are all listed, and the root is not.
    have hr : ¬ page.Reaches top root := by
      intro hr
      cases hr with
      | refl => exact hlists parent h.listed
      | tail _ hlist => exact hlists _ hlist
    obtain ⟨f, hf, hp, -⟩ := h.get?_kept hl he hr
    exact ⟨f, hf, hp.trans hn⟩
  child_stored := by
    intro x f child hf hm
    obtain ⟨hr, e, he, -, -, hmem⟩ := h.get?_page hl hf
    obtain ⟨hne, hm⟩ := (hmem child).1 hm
    obtain ⟨c, hc, hcp⟩ := hl.child_stored he hm
    have hrc : ¬ page.Reaches top child := by
      intro hrc
      rcases hl.reaches_parent hrc ⟨e, he, hm⟩ with heq | hrx
      · exact hne heq.symm
      · exact hr hrx
    obtain ⟨g, hg, hgp, -⟩ := h.get?_kept hl hc hrc
    exact ⟨g, hg, hgp.trans hcp⟩
  listed := by
    intro x f y hf hy
    obtain ⟨hr, e, he, hp, -, -⟩ := h.get?_page hl hf
    obtain ⟨host, hhost, hm⟩ := hl.listed he (hp.symm.trans hy)
    have hry := not_reaches_of_child ⟨host, hhost, hm⟩ hr
    obtain ⟨g, hg, -, hmem⟩ := h.get?_kept hl hhost hry
    exact ⟨g, hg, (hmem x).2 ⟨fun heq => hr (heq ▸ .refl), hm⟩⟩
  nodup_children := by
    intro x f hf
    obtain ⟨-, e, -, -, hn, -⟩ := h.get?_page hl hf
    exact hn
  deep := by
    intro x f hf
    obtain ⟨hr, e, he, -⟩ := h.get?_page hl hf
    obtain ⟨d, hd⟩ := hl.deep he
    exact ⟨d, h.atDepth hl hd hr⟩

/-! ## Moving -/

/-- `result` is `page` with an element, and all below it, under a new parent that does not lie
below it. -/
structure Rehung (page : Page) (id old target : String) (index : Option Int) (result : Page) :
    Prop where
  root : result.root = page.root
  listed : page.Lists old id
  target_stored : ∃ e, page.get? target = some e
  not_below : ¬ page.Reaches id target
  get?_moved : ∀ {e}, page.get? id = some e →
    result.get? id = some { e with parent := some target }
  get?_other : ∀ {x e}, page.get? x = some e → x ≠ id → result.get? x = some { e with
    children :=
      let children := if x = old then e.children.erase id else e.children
      if x = target then insertAt index id children else children }
  get?_none : ∀ {x}, page.get? x = none → result.get? x = none

/-- Every element is kept: the moved one has a new parent, and the moved one is a child of the
new parent and of no other. -/
theorem Rehung.get?_kept {id old target : String} {index : Option Int} {result : Page}
    (hl : page.Linked) (h : page.Rehung id old target index result) {x : String} {e : Element}
    (he : page.get? x = some e) : ∃ f, result.get? x = some f ∧
      f.parent = (if x = id then some target else e.parent) ∧ f.children.Nodup ∧
      ∀ child, child ∈ f.children ↔ child = id ∧ x = target ∨ child ≠ id ∧ child ∈ e.children := by
  have hn := hl.nodup_children he
  by_cases hx : x = id
  · subst hx
    refine ⟨_, h.get?_moved he, by simp, hn, fun child => ?_⟩
    -- Moving an element does not put it below itself.
    have htarget : x ≠ target := fun heq => h.not_below (heq ▸ .refl)
    have hself : child ∈ e.children → child ≠ x := fun hm heq =>
      hl.not_reaches_of_lists ⟨e, he, hm⟩ (heq ▸ .refl)
    exact ⟨fun hm => Or.inr ⟨hself hm, hm⟩, fun hm => hm.elim (fun hc => absurd hc.2 htarget) (·.2)⟩
  · -- Whatever is not the old parent does not list the id in the first place.
    have hmem : ∀ child, child ∈ (if x = old then e.children.erase id else e.children) ↔
        child ≠ id ∧ child ∈ e.children := by
      intro child
      split
      · exact hn.mem_erase_iff
      · rename_i hold
        refine ⟨fun hm => ⟨?_, hm⟩, (·.2)⟩
        intro heq
        exact hold (hl.lists_unique ⟨e, he, heq ▸ hm⟩ h.listed)
    have hnodup : (if x = old then e.children.erase id else e.children).Nodup := by
      split
      · exact hn.erase id
      · exact hn
    refine ⟨_, h.get?_other he hx, by simp [hx], ?_, fun child => ?_⟩
    · by_cases ht : x = target
      · simp only [if_pos ht]
        exact nodup_insertAt hnodup fun hm => ((hmem id).1 hm).1 rfl
      · simpa only [if_neg ht] using hnodup
    · by_cases ht : x = target
      · simp only [if_pos ht, mem_insertAt, hmem]
        simp [ht]
      · simp only [if_neg ht, hmem]
        simp [ht]

/-- Nothing else is in the result. -/
theorem Rehung.exists_page {id old target : String} {index : Option Int} {result : Page}
    (h : page.Rehung id old target index result) {x : String} {f : Element}
    (hf : result.get? x = some f) : ∃ e, page.get? x = some e := by
  cases he : page.get? x with
  | some e => exact ⟨e, rfl⟩
  | none => exact absurd ((h.get?_none he).symm.trans hf) (by simp)

/-- Links change at the moved element and at its two parents, and nowhere else. -/
theorem Rehung.get?_page {id old target : String} {index : Option Int} {result : Page}
    (hl : page.Linked) (h : page.Rehung id old target index result) {x : String} {f : Element}
    (hf : result.get? x = some f) : ∃ e, page.get? x = some e ∧
      f.parent = (if x = id then some target else e.parent) ∧ f.children.Nodup ∧
      ∀ child, child ∈ f.children ↔ child = id ∧ x = target ∨ child ≠ id ∧ child ∈ e.children := by
  obtain ⟨e, he⟩ := h.exists_page hf
  obtain ⟨g, hg, hkept⟩ := h.get?_kept hl he
  cases hf.symm.trans hg
  exact ⟨e, he, hkept⟩

/-- What is moved is there. -/
theorem Rehung.exists_moved {id old target : String} {index : Option Int} {result : Page}
    (hl : page.Linked) (h : page.Rehung id old target index result) :
    ∃ m, page.get? id = some m := by
  obtain ⟨e, he, hm⟩ := h.listed
  obtain ⟨m, hid, -⟩ := hl.child_stored he hm
  exact ⟨m, hid⟩

/-- Outside the moved part the way up is the old one. -/
theorem Rehung.atDepth_outside {id old target : String} {index : Option Int} {result : Page}
    (hl : page.Linked) (h : page.Rehung id old target index result) :
    ∀ {d x}, page.AtDepth d x → ¬ page.Reaches id x → result.AtDepth d x := by
  intro d
  induction d with
  | zero => exact fun hd _ => h.root.trans hd
  | succ d ih =>
    rintro x ⟨e, y, he, hy, hd⟩ hr
    obtain ⟨f, hf, hp, -⟩ := h.get?_kept hl he
    have hx : x ≠ id := fun heq => hr (heq ▸ .refl)
    rw [if_neg hx] at hp
    have hry := not_reaches_of_child (hl.lists_of_parent he hy) hr
    exact ⟨f, y, hf, hp.trans hy, ih hd hry⟩

/-- Inside the moved part the way up is followed to the moved element, and goes on from the new
parent. -/
theorem Rehung.exists_atDepth_inside {id old target : String} {index : Option Int}
    {result : Page} (hl : page.Linked) (h : page.Rehung id old target index result) {x : String}
    (hr : page.Reaches id x) : ∃ d, result.AtDepth d x := by
  obtain ⟨m, hm⟩ := h.exists_moved hl
  induction hr with
  | refl =>
    obtain ⟨t, ht⟩ := h.target_stored
    obtain ⟨d, hd⟩ := hl.deep ht
    exact ⟨d + 1, _, target, h.get?_moved hm, rfl, h.atDepth_outside hl hd h.not_below⟩
  | @tail b c hr hlist ih =>
    obtain ⟨d, hd⟩ := ih
    obtain ⟨e, he⟩ := hl.stored_of_reaches (hr.tail hlist) ⟨m, hm⟩
    obtain ⟨f, hf, hp, -⟩ := h.get?_kept hl he
    have hc : c ≠ id := fun heq => hl.not_reaches_of_lists hlist (heq ▸ hr)
    rw [if_neg hc] at hp
    exact ⟨d + 1, f, b, hf, hp.trans (hl.parent_of_lists hlist he), hd⟩

/-- A tree in which a subtree has been moved, to a place outside of it, is a tree. -/
theorem Linked.rehung {id old target : String} {index : Option Int} {result : Page}
    (hl : page.Linked) (h : page.Rehung id old target index result) : result.Linked where
  root_stored := by
    intro root hroot
    obtain ⟨e, he, hn⟩ := hl.root_stored (h.root.symm.trans hroot)
    obtain ⟨f, hf, hp, -⟩ := h.get?_kept hl he
    -- What is moved is listed somewhere, so it is not the root.
    have hx : root ≠ id := by
      rintro rfl
      exact absurd (hn.symm.trans (hl.parent_of_lists h.listed he)) (by simp)
    rw [if_neg hx] at hp
    exact ⟨f, hf, hp.trans hn⟩
  child_stored := by
    intro x f child hf hchild
    obtain ⟨e, he, -, -, hmem⟩ := h.get?_page hl hf
    rcases (hmem child).1 hchild with ⟨rfl, rfl⟩ | ⟨hne, hchild⟩
    · obtain ⟨m, hm⟩ := h.exists_moved hl
      exact ⟨_, h.get?_moved hm, rfl⟩
    · obtain ⟨c, hc, hcp⟩ := hl.child_stored he hchild
      obtain ⟨g, hg, hgp, -⟩ := h.get?_kept hl hc
      rw [if_neg hne] at hgp
      exact ⟨g, hg, hgp.trans hcp⟩
  listed := by
    intro x f y hf hy
    obtain ⟨e, he, hp, -, -⟩ := h.get?_page hl hf
    by_cases hx : x = id
    · rw [if_pos hx] at hp
      cases hp.symm.trans hy
      obtain ⟨t, ht⟩ := h.target_stored
      obtain ⟨g, hg, -, -, hgmem⟩ := h.get?_kept hl ht
      exact ⟨g, hg, (hgmem x).2 (Or.inl ⟨hx, rfl⟩)⟩
    · rw [if_neg hx] at hp
      obtain ⟨host, hhost, hlist⟩ := hl.listed he (hp.symm.trans hy)
      obtain ⟨g, hg, -, -, hgmem⟩ := h.get?_kept hl hhost
      exact ⟨g, hg, (hgmem x).2 (Or.inr ⟨hx, hlist⟩)⟩
  nodup_children := by
    intro x f hf
    obtain ⟨e, -, -, hn, -⟩ := h.get?_page hl hf
    exact hn
  deep := by
    intro x f hf
    obtain ⟨e, he, -⟩ := h.get?_page hl hf
    -- Only at and below what is moved is the way to the root another one.
    by_cases hr : page.Reaches id x
    · exact h.exists_atDepth_inside hl hr
    · obtain ⟨d, hd⟩ := hl.deep he
      exact ⟨d, h.atDepth_outside hl hd hr⟩

end PageBuilder.Page
