import PageBuilder.Proofs.Draft.Growth
import PageBuilder.Proofs.Draft.Vocabulary
import PageBuilder.Proofs.Page.Admission
import PageBuilder.Proofs.Page.Positions

/-!
# Copies are faithful

A copy is taken from one page and attached to another, which may be the same page, a later state of
it, or one where the ids of the copy are in use for other elements.  None of this makes a
difference, since nothing is stored but under new ids: `Reissued` says what the copied elements are
under these, and `CopiedInto` what a page is once they hang in it.  Whether they are let in is up to
the catalog alone, for all else that the checks ask for holds of what comes from a well-formed page
(`attachable_iff`); and then the ids must last for all of them.
-/

namespace PageBuilder

namespace Page

variable {source page part result cut : Page} {catalog : Catalog} {id : String}
  {name : String → String} {parent : Option String} {index : Option Int}

/-! ## The copied elements -/

/-- Every kind at and below an element is known. -/
def KnownBelow (catalog : Catalog) (page : Page) (id : String) : Prop :=
  ∀ x e, page.Reaches id x → page.get? x = some e → catalog.contains e.kind = true

/-- The style attributes of a page are texts. -/
def TextStyled (page : Page) : Prop :=
  ∀ {id e}, page.get? id = some e → ∀ p ∈ e.style.entries, ∃ text, p.2 = .str text

/-- `part` is what a page has at and below an element, by itself and under other ids. -/
structure Reissued (source : Page) (id : String) (name : String → String) (part : Page) :
    Prop where
  injective : ∀ {x y}, source.Reaches id x → source.Reaches id y → name x = name y → x = y
  get?_name : ∀ {x e}, source.Reaches id x → source.get? x = some e →
    part.get? (name x) = some { e with
      id := name x
      children := e.children.map name
      parent := if x = id then none else e.parent.map name }
  exists_name : ∀ {y q}, part.get? y = some q → ∃ x, source.Reaches id x ∧ name x = y

/-- `result` is `page` with a copy of what `source` has at and below an element, hung under a parent
or as the root. -/
structure CopiedInto (source : Page) (id : String) (name : String → String) (page : Page)
    (parent : Option String) (index : Option Int) (result : Page) : Prop where
  injective : ∀ {x y}, source.Reaches id x → source.Reaches id y → name x = name y → x = y
  fresh : ∀ {x}, source.Reaches id x → page.get? (name x) = none
  /-- Each copied element is what it was, with the new ids of its children and of its parent. -/
  copied : ∀ {x e}, source.Reaches id x → source.get? x = some e →
    result.get? (name x) = some { e with
      id := name x
      children := e.children.map name
      parent := if x = id then parent else e.parent.map name }
  /-- Nothing else lies below the copy. -/
  reaches_iff : ∀ {y}, result.Reaches (name id) y ↔ ∃ x, source.Reaches id x ∧ name x = y
  root : result.root = if parent.isNone then some (name id) else page.root
  /-- The parent lists the copy where it was asked for. -/
  hung : ∀ {p}, parent = some p → ∃ host children, page.get? p = some host ∧
    PutAt index (name id) host.children children ∧
    result.get? p = some { host with children := children }
  other : ∀ {x}, (∀ y, source.Reaches id y → name y ≠ x) → parent ≠ some x →
    result.get? x = page.get? x

theorem Reissued.exists_source (h : source.Reissued id name part) (hl : source.Linked) {e : Element}
    (he : source.get? id = some e) {y : String} {q : Element} (hq : part.get? y = some q) :
    ∃ x f, source.Reaches id x ∧ source.get? x = some f ∧ name x = y ∧ q = { f with
      id := name x
      children := f.children.map name
      parent := if x = id then none else f.parent.map name } := by
  obtain ⟨x, hr, rfl⟩ := h.exists_name hq
  obtain ⟨f, hf⟩ := hl.stored_of_reaches hr ⟨e, he⟩
  exact ⟨x, f, hr, hf, rfl, Option.some.inj (hq.symm.trans (h.get?_name hr hf))⟩

/-- The catalog admits the copied elements if it admits the others and knows the kinds. -/
theorem Reissued.admits (h : source.Reissued id name part) (hl : source.Linked)
    (ha : Admits catalog source false) (hkinds : KnownBelow catalog source id) {e : Element}
    (he : source.get? id = some e) : Admits catalog part true := by
  intro y q hq
  obtain ⟨x, f, hr, hf, -, rfl⟩ := h.exists_source hl he hq
  have hadmitted := ha hf
  refine ⟨fun hk hne => hadmitted.holds_children hk fun hnil => hne ?_, fun _ => hkinds x f hr hf,
    hadmitted.style_known⟩
  simp [hnil]

theorem Reissued.copiedInto (h : source.Reissued id name part) (hl : source.Linked) {e : Element}
    (he : source.get? id = some e) (hg : page.Grafted part parent index (name id) result) :
    source.CopiedInto id name page parent index result := by
  have hcopied : ∀ {x f}, source.Reaches id x → source.get? x = some f →
      result.get? (name x) = some { f with
        id := name x
        children := f.children.map name
        parent := if x = id then parent else f.parent.map name } := by
    intro x f hr hf
    rw [hg.get?_part (h.get?_name hr hf)]
    by_cases hx : x = id
    · simp [hx]
    · -- Names do not collide below the element, so only its own copy gets the new parent.
      have hname : name x ≠ name id := fun heq => hx (h.injective hr .refl heq)
      simp only [if_neg hx, if_neg hname]
  refine ⟨h.injective, ?_, hcopied, ?_, hg.root, ?_, ?_⟩
  · intro x hr
    obtain ⟨f, hf⟩ := hl.stored_of_reaches hr ⟨e, he⟩
    exact hg.apart (h.get?_name hr hf)
  · -- What is listed on either side is listed under its other id on the other.
    intro y
    constructor
    · intro hr
      induction hr with
      | refl => exact ⟨id, .refl, rfl⟩
      | tail _ hlist ih =>
        obtain ⟨x, hx, rfl⟩ := ih
        obtain ⟨f, hf⟩ := hl.stored_of_reaches hx ⟨e, he⟩
        obtain ⟨g, hg', hm⟩ := hlist
        cases (hcopied hx hf).symm.trans hg'
        obtain ⟨child, hchild, rfl⟩ := List.mem_map.1 hm
        exact ⟨child, hx.tail ⟨f, hf, hchild⟩, rfl⟩
    -- On the way down every child is listed under its new name.
    · rintro ⟨x, hr, rfl⟩
      induction hr with
      | refl => exact .refl
      | @tail b c hr hlist ih =>
        obtain ⟨f, hf, hm⟩ := hlist
        exact ih.tail ⟨_, hcopied hr hf, List.mem_map_of_mem hm⟩
  · rintro p rfl
    obtain ⟨hnone, -⟩ | ⟨p, host, ⟨⟩, hhost⟩ := hg.host
    · cases hnone
    · exact ⟨host, _, hhost, putAt_insertAt index (name id) _, hg.get?_host hhost rfl⟩
  · intro x hx hparent
    apply hg.get?_page _ hparent
    cases hq : part.get? x with
    | none => rfl
    | some q =>
      obtain ⟨y, hr, hy⟩ := h.exists_name hq
      exact absurd hy (hx y hr)

end Page

namespace Draft

open Page

variable {source target after : Draft} {id new : String} {parent : Option String}
  {index : Option Int} {nodes : List Element}

/-- A list of elements that is cut out of a page, under new names. -/
theorem reissued_renamed {page : Page} {names : OrderedMap String} (hl : page.Linked)
    {e : Element} (he : page.get? id = some e) (hcut : page.CutOut id (ofNodes nodes))
    (hd : Detached nodes) (hnames : ∀ x ∈ nodes.map Element.id, ∃ y, names.get? x = some y)
    (hpart : Detached (nodes.map (renamed names none))) :
    page.Reissued id (nameIn names) (ofNodes (nodes.map (renamed names none))) := by
  have hmem : ∀ {x f}, page.Reaches id x → page.get? x = some f →
      { f with parent := if x = id then none else f.parent } ∈ nodes ∧ f.id = x :=
    fun hr hf => (get?_ofNodes_iff hd.nodup).1 (hcut.get?_cut hr hf)
  refine ⟨?_, ?_, ?_⟩
  · intro x y hx hy heq
    obtain ⟨f, hf⟩ := hl.stored_of_reaches hx ⟨e, he⟩
    obtain ⟨g, hg⟩ := hl.stored_of_reaches hy ⟨e, he⟩
    obtain ⟨hfm, rfl⟩ := hmem hx hf
    obtain ⟨hgm, rfl⟩ := hmem hy hg
    -- Two elements of one name would be one id twice in the renamed list.
    have hnodup := hpart.nodup
    rw [List.map_map] at hnodup
    simpa using congrArg Element.id (List.inj_on_of_nodup_map hnodup hfm hgm heq)
  · intro x f hr hf
    obtain ⟨hm, rfl⟩ := hmem hr hf
    have hstored := hpart.get?_of_mem (List.mem_map_of_mem (f := renamed names none) hm)
    have hchildren : f.children.filterMap names.get? = f.children.map (nameIn names) :=
      filterMap_names fun child hc => hnames child (children_mem_nodes hd hm hc)
    have hparent : ((if f.id = id then none else f.parent).bind names.get?).or none =
        if f.id = id then none else f.parent.map (nameIn names) := by
      split_ifs with hx
      · rfl
      · cases hp : f.parent with
        | none => rfl
        | some p =>
          obtain ⟨y, hy⟩ := hnames p (parent_mem_nodes hd hm (by simp [hx, hp]))
          simp [nameIn, hy]
    refine hstored.trans (congrArg some ?_)
    simp only [renamed, hchildren, hparent]
    rfl
  · intro y q hq
    obtain ⟨hm, rfl⟩ := (get?_ofNodes_iff hpart.nodup).1 hq
    obtain ⟨node, hnode, rfl⟩ := List.mem_map.1 hm
    exact ⟨node.id, hcut.reaches (hd.get?_of_mem hnode), rfl⟩

/-- What an attached copy is of, and where it hangs. -/
theorem reissued_of_attach (hl : source.page.Linked) (hk : source.page.Keyed)
    (ha : target.ids.Ahead target.page) (hcopy : source.copy id = .ok nodes)
    (hrun : Draft.attach parent nodes index target = .ok new after) :
    ∃ name part, part.Linked ∧ part.Keyed ∧ name id = new ∧ source.page.Reissued id name part ∧
      target.page.Grafted part parent index new after.page := by
  obtain ⟨e, he⟩ := copy_stored hcopy
  obtain ⟨nodes', hcopy', -, -, hcut⟩ := copy_eq hl hk he
  cases hcopy.symm.trans hcopy'
  have hd := copy_detached hl hk hcopy
  rcases attach_cases target parent nodes index with hno | hno | ⟨-, hhost, -, hok⟩
  · exact absurd hrun hno.ne_ok
  · exact absurd hrun hno.ne_ok
  cases hok.symm.trans hrun
  obtain ⟨names, part, hnames, rfl, hpart, hg, -⟩ := placeCopy_grafted index ha hd
    (hhost.imp (fun hnone => hnone) fun ⟨p, e, hp, he, _⟩ => ⟨p, e, hp, he⟩)
  have htop : nameIn names id = (target.placeCopy parent nodes index).1 := by
    have hroot := hg.part_root
    rw [root_renamed, hcut.root] at hroot
    exact Option.some.inj hroot
  exact ⟨nameIn names, _, hpart.linked, hpart.keyed, htop,
    reissued_renamed hl he hcut hd hnames hpart, hg⟩

/-! ## What is let in -/

/-- Of a well-formed page with texts for style attributes, copied elements can be attached wherever
their kinds are known. -/
theorem attachable_iff {catalog : Catalog} {page : Page} (hpage : page.WellFormed catalog)
    (htexts : page.TextStyled) (hcut : page.CutOut id (ofNodes nodes)) (hd : Detached nodes) :
    (∀ node ∈ nodes, node.Attachable catalog (nodes.map Element.id)) ↔
      KnownBelow catalog page id := by
  have hl := hpage.isTree.linked
  obtain ⟨e, he, -⟩ := hcut.get?_top
  constructor
  · intro hall x f hr hf
    obtain ⟨hm, -⟩ := (get?_ofNodes_iff hd.nodup).1 (hcut.get?_cut hr hf)
    exact (hall _ hm).kind_known
  · intro hkinds node hm
    have hnode := hd.get?_of_mem hm
    have hr := hcut.reaches hnode
    obtain ⟨f, hf⟩ := hl.stored_of_reaches hr ⟨e, he⟩
    have heq := Option.some.inj ((hcut.get?_cut hr hf).symm.trans hnode)
    have hadmitted := hpage.admitted hf
    have hkind := hkinds _ f hr hf
    refine ⟨?_, fun hne => ?_, fun child hc => children_mem_nodes hd hm hc, ?_⟩
    · rw [← heq]
      exact hkind
    · rw [← heq] at hne ⊢
      exact hadmitted.holds_children hkind hne
    · refine Style.exists_check_iff.2 fun p hp => ?_
      rw [← heq] at hp
      obtain ⟨text, htext⟩ := htexts hf p hp
      have hknown := hadmitted.style_known p.1 (List.mem_map_of_mem hp)
      exact ⟨.str text, by simp [Style.checkOne, hknown, htext]⟩

section Attach

variable {e : Element}

theorem accepts_copy_iff (hsource : source.page.WellFormed source.catalog)
    (htexts : source.page.TextStyled) (he : source.page.get? id = some e)
    (hcatalog : target.catalog = source.catalog)
    (hhost : target.page.Hosts target.catalog parent) (hcopy : source.copy id = .ok nodes) :
    target.Accepts (Draft.attach parent nodes index) ↔
      KnownBelow source.catalog source.page id ∧ target.ids.exhausted? nodes.length = none := by
  have hl := hsource.isTree.linked
  obtain ⟨nodes', hcopy', hne, -, hcut⟩ := copy_eq hl hsource.keyed he
  cases hcopy.symm.trans hcopy'
  have hd := copy_detached hl hsource.keyed hcopy
  rw [(heeds_catalog target).attach, hcatalog, attachable_iff hsource htexts hcut hd, ← hcatalog]
  exact ⟨fun h => ⟨h.2.1, h.2.2.2⟩, fun h => ⟨hne, h.1, hhost, h.2⟩⟩

/-- A copy of an element of a well-formed page is let into another one of the same catalog exactly
if all kinds at and below the element are known and the ids last. -/
theorem attach_copies (hsource : source.page.WellFormed source.catalog)
    (htexts : source.page.TextStyled) (he : source.page.get? id = some e)
    (htarget : target.page.WellFormed target.catalog) (ha : target.ids.Ahead target.page)
    (hcatalog : target.catalog = source.catalog)
    (hhost : target.page.Hosts target.catalog parent) (hcopy : source.copy id = .ok nodes) :
    (target.Accepts (Draft.attach parent nodes index) ↔
      KnownBelow source.catalog source.page id ∧ target.ids.exhausted? nodes.length = none) ∧
    ∀ {new after}, Draft.attach parent nodes index target = .ok new after →
      after.catalog = target.catalog ∧ after.ids.Ahead after.page ∧
        after.page.WellFormed target.catalog ∧
        ∃ name, name id = new ∧
          source.page.CopiedInto id name target.page parent index after.page := by
  have hl := hsource.isTree.linked
  have haccepts := @accepts_copy_iff _ target id parent index nodes e hsource htexts he hcatalog
    hhost hcopy
  refine ⟨haccepts, fun {new after} hrun => ?_⟩
  obtain ⟨hkinds, -⟩ := haccepts.1 ⟨new, after, hrun⟩
  obtain ⟨name, part, hlpart, hkpart, rfl, hreissued, hg⟩ :=
    reissued_of_attach hl hsource.keyed ha hcopy hrun
  have hattach : (Edit.attach parent nodes index).run target = .ok (.added (name id)) after :=
    Results.map_of_ok hrun _
  have hkept := (Edit.attach parent nodes index).catalog_run target
  rw [hattach] at hkept
  have hadmits : Admits target.catalog after.page false := by
    have hpart : Admits target.catalog part true := by
      rw [hcatalog]
      exact hreissued.admits hl hsource.admitted hkinds he
    intro y q hq
    refine Admits.grafted htarget.admitted (fun hq => (hpart hq).weaken) ?_ hg hq
    -- The parent has one child more, and is of a kind that holds children.
    rintro p f rfl hf
    obtain ⟨host, hstored, hholds⟩ := hhost
    cases hstored.symm.trans hf
    exact hholds
  exact ⟨hkept, (Edit.grows_of_run hattach).ahead ha, ⟨Keyed.grafted htarget.keyed hkpart hg,
    (htarget.isTree.linked.grafted hlpart hg).isTree, hadmits⟩, name, rfl,
    hreissued.copiedInto hl he hg⟩

end Attach

end Draft

end PageBuilder
