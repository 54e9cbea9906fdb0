import PageBuilder.Proofs.Draft.Vocabulary
import PageBuilder.Proofs.Session.Saving

/-!
# What new elements start with

A new element starts with the defaults of its kind, over which what is given is layered.  The checks
are made of what is given alone: neither registering a component nor inserting one looks at its
defaults.  So the defaults that are left standing (`OrderedMap.without`) decide alone whether the
new element is one that could have been made by giving everything, whether the page goes on to be
well formed, and whether it can be saved.
-/

namespace PageBuilder

open Results

/-! ## Defaults that are left standing -/

/-- Everything that is given, and of the defaults what is not given otherwise. -/
def OrderedMap.Completes {α : Type} (given defaults all : OrderedMap α) : Prop :=
  ∀ key, all.get? key = (given.get? key).or (defaults.get? key)

/-- The whole is made of what is given and of the defaults that are left standing. -/
theorem OrderedMap.Completes.mem_iff {α : Type} {given defaults all : OrderedMap α}
    (h : given.Completes defaults all) {p : String × α} :
    p ∈ all.entries ↔ p ∈ given.entries ∨ p ∈ (defaults.without given).entries := by
  obtain ⟨key, value⟩ := p
  rw [mem_without, mem_entries_iff, mem_entries_iff, mem_entries_iff, h key]
  cases given.get? key <;> simp

namespace Props

variable {props defaults update all : OrderedMap Value}

theorem storable_iff : Storable props ↔
    ∀ p ∈ props.entries, checkOne p.1 p.2 = .ok () ∧ p.2 ≠ .null :=
  ⟨fun h p hp => ⟨(checkEntries_eq_ok_iff _).1 h.checked p hp, h.set p hp⟩,
    fun h => ⟨(checkEntries_eq_ok_iff _).2 fun p hp => (h p hp).1, fun p hp => (h p hp).2⟩⟩

theorem storable_overlay_iff (hu : check update = .ok ()) :
    Storable (overlay defaults update) ↔ Storable (defaults.without update) := by
  rw [storable_iff, storable_iff]
  exact forall_overlay_iff fun p hp hne => ⟨(checkEntries_eq_ok_iff _).1 hu p hp, hne⟩

/-- What is given has passed the check, so the defaults decide. -/
theorem check_completes_iff (h : update.Completes defaults all) (hu : check update = .ok ()) :
    check all = .ok () ↔ check (defaults.without update) = .ok () := by
  rw [check, check, checkEntries_eq_ok_iff, checkEntries_eq_ok_iff]
  constructor
  · exact fun hall p hp => hall p (h.mem_iff.2 (Or.inr hp))
  · intro hrest p hp
    rcases h.mem_iff.1 hp with hp | hp
    · exact (checkEntries_eq_ok_iff _).1 hu p hp
    · exact hrest p hp

/-- Giving the defaults that would be left standing makes no difference if they are set. -/
theorem same_overlay_completes (h : update.Completes defaults all)
    (hset : ∀ p ∈ (defaults.without update).entries, p.2 ≠ .null) :
    (overlay defaults all).Same (overlay defaults update) := by
  intro key
  rw [get?_overlay, get?_overlay, h key]
  cases hu : update.get? key with
  | some value => rfl
  | none =>
    cases hd : defaults.get? key with
    | none => simp
    | some value =>
      have hm : (key, value) ∈ (defaults.without update).entries :=
        OrderedMap.mem_without.2 ⟨(defaults.mem_entries_iff _ _).2 hd, hu⟩
      have hne := hset _ hm
      cases value <;> simp_all [Value.isNull]

end Props

namespace Style

variable {style defaults update kept all : OrderedMap Value}

/-- The check keeps every category, and adds none. -/
theorem get?_eq_none_iff (h : check update = .ok kept) (category : String) :
    kept.get? category = none ↔ update.get? category = none := by
  rw [get?_check h]
  cases hu : update.get? category with
  | none => simp
  | some value =>
    have hm := (update.mem_entries_iff _ _).2 hu
    obtain ⟨k, hk⟩ := exists_check_iff.1 ⟨kept, h⟩ _ hm
    simp [hk, Except.toOption]

/-- So the same defaults are left standing. -/
theorem mem_without_kept (h : check update = .ok kept) {p : String × Value} :
    p ∈ (defaults.without kept).entries ↔ p ∈ (defaults.without update).entries := by
  rw [OrderedMap.mem_without, OrderedMap.mem_without, get?_eq_none_iff h]

theorem storable_overlay_iff (h : check update = .ok kept) :
    Storable (overlay defaults kept) ↔ Storable (defaults.without update) := by
  have hkept : ∀ p ∈ kept.entries, p.2 ≠ .null → isKnown p.1 = true ∧ ∃ s, p.2 = .str s := by
    intro p hp hne
    obtain ⟨value, -, hone⟩ := exists_of_mem_check h hp
    exact (kept_of_checkOne hone).imp_right fun hk => hk.resolve_left hne
  unfold Storable
  rw [forall_overlay_iff hkept]
  simp only [mem_without_kept h]

/-- Whether all categories are known is decided by the defaults as well. -/
theorem known_overlay_iff (h : check update = .ok kept) :
    (∀ category ∈ (overlay defaults kept).keys, isKnown category = true) ↔
      ∀ category ∈ (defaults.without update).keys, isKnown category = true := by
  have hkept : ∀ p ∈ kept.entries, p.2 ≠ .null → isKnown p.1 = true :=
    fun p hp _ => (known_of_check h).2 p.1 (List.mem_map_of_mem hp)
  simp only [OrderedMap.keys, List.forall_mem_map]
  rw [forall_overlay_iff hkept]
  simp only [mem_without_kept h]

theorem exists_check_completes_iff (h : update.Completes defaults all)
    (hu : check update = .ok kept) :
    (∃ k, check all = .ok k) ↔ ∃ k, check (defaults.without update) = .ok k := by
  rw [exists_check_iff, exists_check_iff]
  constructor
  · exact fun hall p hp => hall p (h.mem_iff.2 (Or.inr hp))
  · intro hrest p hp
    rcases h.mem_iff.1 hp with hp | hp
    · exact exists_check_iff.1 ⟨kept, hu⟩ p hp
    · exact hrest p hp

/-- Texts of known categories are kept as they are. -/
theorem checkOne_of_storable (h : Storable style) {p : String × Value} (hp : p ∈ style.entries) :
    checkOne p.1 p.2 = .ok p.2 := by
  obtain ⟨category, value⟩ := p
  obtain ⟨hknown, s, rfl⟩ := h _ hp
  show checkOne category (.str s) = .ok (.str s)
  simp only [checkOne, show isKnown category = true from hknown]
  rfl

theorem same_overlay_completes {keptAll : OrderedMap Value} (h : update.Completes defaults all)
    (hu : check update = .ok kept) (hall : check all = .ok keptAll)
    (hstorable : Storable (defaults.without update)) :
    (overlay defaults keptAll).Same (overlay defaults kept) := by
  intro category
  rw [get?_overlay, get?_overlay, get?_check hall, get?_check hu, h category]
  cases hg : update.get? category with
  | some value => rfl
  | none =>
    cases hd : defaults.get? category with
    | none => rfl
    | some value =>
      have hm : (category, value) ∈ (defaults.without update).entries :=
        OrderedMap.mem_without.2 ⟨(defaults.mem_entries_iff _ _).2 hd, hg⟩
      obtain ⟨-, s, rfl⟩ := hstorable _ hm
      rw [Option.none_or]
      have hone : checkOne category (.str s) = .ok (.str s) := checkOne_of_storable hstorable hm
      simp only [hone]
      rfl

end Style

namespace Catalog

variable {catalog larger : Catalog} {component : Component}

/-- Only the shelf of a component is checked when it is registered, none of its defaults. -/
theorem register_eq_ok_iff : catalog.register component = .ok larger ↔
    component.shelf ∈ shelves ∧ larger = catalog.add component := by
  rw [register, ← List.contains_iff_mem]
  cases shelves.contains component.shelf with
  | false => simp
  | true => simp [eq_comm]

end Catalog

namespace Draft

open Page Archive

variable {draft after : Draft} {component : Component} {kind id : String} {parent : Option String}
  {index : Option Int} {props style : OrderedMap Value}

/-! ## The new element -/

/-- The checks of an insertion look at what is given; the defaults are overlaid afterwards. -/
theorem insert_eq_ok_iff (hc : draft.catalog.get? kind = some component) :
    Draft.insert parent kind index props style draft = .ok id after ↔
      draft.checkHost parent = .ok () ∧ Props.check props = .ok () ∧
        draft.ids.exhausted? 1 = none ∧ ∃ kept, Style.check style = .ok kept ∧
          draft.place (fresh "" kind (overlay component.props props)
            (overlay component.style kept) parent) index = (id, after) := by
  have hrequire : draft.catalog.require kind none = .ok component :=
    Catalog.require_eq_ok_iff.2 hc
  rw [← checkProps_eq_ok_iff]
  simp only [← checkStyle_eq_ok_iff]
  unfold Draft.insert planInsert
  rw [hrequire]
  cases draft.checkHost parent with
  | error failure => simp
  | ok =>
    cases checkProps props with
    | error failure => simp
    | ok =>
      cases checkStyle style with
      | error failure => simp
      | ok kept =>
        cases hids : draft.ids.exhausted? 1 with
        | some source => simp
        | none =>
          constructor
          · intro h
            cases h
            exact ⟨rfl, rfl, rfl, kept, rfl, rfl⟩
          · rintro ⟨-, -, -, _, ⟨⟩, h⟩
            exact congrArg (fun p : String × Draft =>
              (.ok p.1 p.2 : EStateM.Result Failure Draft String)) h

/-- The new element is stored under its id, and its parent lists it. -/
theorem get?_place (draft : Draft) (e : Element) (index : Option Int) (x : String) :
    (draft.place e index).2.page.get? x =
      if x = (draft.place e index).1 then some { e with id := (draft.place e index).1 }
      else (hang draft.page e.parent index (draft.place e index).1).get? x :=
  OrderedMap.get?_insert _ _ _ _

/-- An insertion has stored an element of a kind, made of what is given and kept. -/
structure Inserted (draft after : Draft) (component : Component) (parent : Option String)
    (index : Option Int) (props kept : OrderedMap Value) (id : String) (e : Element) : Prop where
  eq : e = fresh id component.kind (overlay component.props props) (overlay component.style kept)
    parent
  id_eq : id = draft.ids.idOf draft.ids.next
  get?_eq : ∀ x, after.page.get? x =
    if x = id then some e else (hang draft.page parent index id).get? x

/-- Every insertion that is carried out leaves such an element. -/
theorem exists_inserted (hc : draft.catalog.get? component.kind = some component)
    (hrun : Draft.insert parent component.kind index props style draft = .ok id after) :
    Props.check props = .ok () ∧ ∃ kept e, Style.check style = .ok kept ∧
      Inserted draft after component parent index props kept id e := by
  obtain ⟨-, hprops, -, kept, hkept, hplace⟩ := (insert_eq_ok_iff hc).1 hrun
  refine ⟨hprops, kept, _, hkept, rfl, congrArg Prod.fst hplace.symm, fun x => ?_⟩
  have hget := get?_place draft (fresh "" component.kind (overlay component.props props)
    (overlay component.style kept) parent) index x
  rwa [hplace] at hget

theorem Inserted.stored {kept : OrderedMap Value} {e : Element}
    (h : Inserted draft after component parent index props kept id e) :
    after.page.get? id = some e := by
  rw [h.get?_eq, if_pos rfl]

/-- The page keeps passing the check of structure exactly if the categories of the new element's
style are known. -/
theorem problems_insert_iff (hdraft : draft.Consistent)
    (hc : draft.catalog.get? component.kind = some component)
    (hrun : Draft.insert parent component.kind index props style draft = .ok id after)
    {checkKinds : Bool} (hnone : draft.page.problems draft.catalog checkKinds = []) :
    after.page.problems draft.catalog checkKinds = [] ↔
      ∀ category ∈ (component.style.without style).keys, Style.isKnown category = true := by
  obtain ⟨hhost, -, -, kept, hkept, hplace⟩ := (insert_eq_ok_iff hc).1 hrun
  have hhost : draft.CanHost parent :=
    (checkHost_cases draft parent).elim (fun hno => absurd hhost hno.ne_ok) And.left
  obtain ⟨htree, hadmits⟩ := problems_eq_nil_iff.1 hnone
  rw [problems_eq_nil_iff, ← Style.known_overlay_iff hkept]
  constructor
  · rintro ⟨-, hafter⟩
    have hget := get?_place draft (fresh "" component.kind (overlay component.props props)
      (overlay component.style kept) parent) index id
    rw [hplace, if_pos rfl] at hget
    exact (hafter hget).style_known
  · intro hknown
    have hgrafted := @place_grafted draft hdraft.ahead component.kind
      (overlay component.props props) (overlay component.style kept) parent index hhost
    rw [hplace] at hgrafted
    have hsingle : Admits draft.catalog (ofNodes [fresh (draft.ids.idOf draft.ids.next)
        component.kind (overlay component.props props) (overlay component.style kept) none])
        checkKinds :=
      admits_single rfl (fun _ => Catalog.contains_iff_get?.2 ⟨component, hc⟩) hknown
    have hstep := insert_step hdraft hrun
    refine ⟨hstep.linked.isTree, hadmits.grafted hsingle ?_ hgrafted⟩
    rintro x e rfl he
    exact hhost.isContainer he

/-- The page goes on to make a document exactly if the new element can be saved. -/
theorem pageValid_insert_iff (hdraft : draft.Consistent)
    (hc : draft.catalog.get? component.kind = some component)
    (hrun : Draft.insert parent component.kind index props style draft = .ok id after)
    (hpage : PageValid draft.catalog draft.page) :
    PageValid draft.catalog after.page ↔ component.kind ≠ "" ∧ Element.isValidId id = true ∧
      Props.Storable (component.props.without props) ∧
      Style.Storable (component.style.without style) := by
  obtain ⟨hprops, kept, e, hkept, hnew⟩ := exists_inserted hc hrun
  have hbuiltIn := Catalog.orBuiltIn_of_get? hc
  rw [← Props.storable_overlay_iff hprops, ← Style.storable_overlay_iff hkept]
  constructor
  · intro hafter
    have hsaveable := hafter.saveable hnew.stored
    rw [hnew.eq] at hsaveable
    exact ⟨hsaveable.kind_ne, hsaveable.id_valid, hsaveable.storable.props,
      hsaveable.storable.style⟩
  · rintro ⟨hkind, hid, hsetProps, hsetStyle⟩
    have hstep := insert_step hdraft hrun
    have hconsistent := hpage.consistent
    rw [hbuiltIn] at hconsistent
    refine ⟨hstep.keyed, fun {x f} hf => ?_, ?_⟩
    · have hx := hstep.keyed hf
      rw [hnew.get?_eq] at hf
      split at hf
      · cases hf
        rw [hnew.eq]
        exact Element.Storable.saveable ⟨hkind, hsetProps, hsetStyle⟩ hid
      -- Any other element was there before, at most with one child less.
      · have hstorable : f.Storable := Every.hang (fun he hk hp hs =>
          ⟨hk ▸ he.kind_ne, hp ▸ he.props, hs ▸ he.style⟩) hpage.storable parent index id x f hf
        apply hstorable.saveable
        rw [hx]
        apply hpage.isValidId
        rw [← contains_hang draft.page parent index id]
        exact contains_iff_get?.2 ⟨f, hf⟩
    · rw [hbuiltIn, problems_insert_iff hdraft hc hrun hconsistent,
        ← Style.known_overlay_iff hkept]
      intro category hm
      obtain ⟨p, hp, rfl⟩ := List.mem_map.1 hm
      exact (hsetStyle p hp).1

/-! ## Defaults that are given -/

/-- Everything can be given exactly if the defaults left standing pass the checks. -/
theorem insert_completes_iff (hc : draft.catalog.get? component.kind = some component)
    (hrun : Draft.insert parent component.kind index props style draft = .ok id after)
    {allProps allStyle : OrderedMap Value} (hprops : props.Completes component.props allProps)
    (hstyle : style.Completes component.style allStyle) :
    (∃ a t, Draft.insert parent component.kind index allProps allStyle draft = .ok a t) ↔
      Props.check (component.props.without props) = .ok () ∧
        ∃ kept, Style.check (component.style.without style) = .ok kept := by
  obtain ⟨hhost, hchecked, hids, kept, hkept, -⟩ := (insert_eq_ok_iff hc).1 hrun
  rw [← Props.check_completes_iff hprops hchecked, ← Style.exists_check_completes_iff hstyle hkept]
  constructor
  · rintro ⟨a, t, h⟩
    obtain ⟨-, hall, -, keptAll, hkeptAll, -⟩ := (insert_eq_ok_iff hc).1 h
    exact ⟨hall, keptAll, hkeptAll⟩
  · rintro ⟨hall, keptAll, hkeptAll⟩
    exact ⟨_, _, (insert_eq_ok_iff hc).2 ⟨hhost, hall, hids, keptAll, hkeptAll, rfl⟩⟩

/-- If the defaults left standing can be saved, giving them too makes no difference. -/
theorem insert_completes (hc : draft.catalog.get? component.kind = some component)
    (hrun : Draft.insert parent component.kind index props style draft = .ok id after)
    {allProps allStyle : OrderedMap Value} (hprops : props.Completes component.props allProps)
    (hstyle : style.Completes component.style allStyle)
    (hsetProps : Props.Storable (component.props.without props))
    (hsetStyle : Style.Storable (component.style.without style)) :
    ∃ t, Draft.insert parent component.kind index allProps allStyle draft = .ok id t ∧
      ∀ x, Option.Rel Element.SameContent (t.page.get? x) (after.page.get? x) := by
  have hchecks : ∃ kept, Style.check (component.style.without style) = .ok kept :=
    Style.exists_check_iff.2 fun p hp => ⟨p.2, Style.checkOne_of_storable hsetStyle hp⟩
  obtain ⟨a, t, hall⟩ :=
    (insert_completes_iff hc hrun hprops hstyle).2 ⟨hsetProps.checked, hchecks⟩
  obtain ⟨-, kept, e, hkept, hnew⟩ := exists_inserted hc hrun
  obtain ⟨-, keptAll, f, hkeptAll, hsame⟩ := exists_inserted hc hall
  obtain rfl : a = id := hsame.id_eq.trans hnew.id_eq.symm
  refine ⟨t, hall, fun x => ?_⟩
  rw [hsame.get?_eq, hnew.get?_eq]
  split
  · rw [hsame.eq, hnew.eq]
    exact .some ⟨rfl, rfl, Props.same_overlay_completes hprops hsetProps.set,
      Style.same_overlay_completes hstyle hkept hkeptAll hsetStyle, rfl, rfl⟩
  · cases (hang draft.page parent index a).get? x with
    | none => exact .none
    | some g => exact .some (.refl g)

/-! ## Components that are registered -/

/-- What the defaults of a component that are left standing decide about a new element. -/
structure LeftToDefaults (draft after : Draft) (component : Component) (parent : Option String)
    (index : Option Int) (props style : OrderedMap Value) (id : String) : Prop where
  element : ∃ e, after.page.get? id = some e ∧
    (Props.Storable e.props ↔ Props.Storable (component.props.without props)) ∧
    (Style.Storable e.style ↔ Style.Storable (component.style.without style))
  /-- Giving them is turned down if they do not pass the checks. -/
  given_iff : ∀ {allProps allStyle : OrderedMap Value},
    props.Completes component.props allProps → style.Completes component.style allStyle →
    ((∃ a t, Draft.insert parent component.kind index allProps allStyle draft = .ok a t) ↔
      Props.check (component.props.without props) = .ok () ∧
        ∃ kept, Style.check (component.style.without style) = .ok kept)
  /-- Giving them makes no difference if they can be saved. -/
  given : ∀ {allProps allStyle : OrderedMap Value},
    props.Completes component.props allProps → style.Completes component.style allStyle →
    Props.Storable (component.props.without props) →
    Style.Storable (component.style.without style) →
    ∃ t, Draft.insert parent component.kind index allProps allStyle draft = .ok id t ∧
      ∀ x, Option.Rel Element.SameContent (t.page.get? x) (after.page.get? x)
  problems_iff : ∀ {checkKinds : Bool}, draft.page.problems draft.catalog checkKinds = [] →
    (after.page.problems draft.catalog checkKinds = [] ↔
      ∀ category ∈ (component.style.without style).keys, Style.isKnown category = true)
  pageValid_iff : PageValid draft.catalog draft.page →
    (PageValid draft.catalog after.page ↔ component.kind ≠ "" ∧ Element.isValidId id = true ∧
      Props.Storable (component.props.without props) ∧
      Style.Storable (component.style.without style))
  /-- A page that makes a document is saved and read back, unless a prop is an integer of too many
  digits. -/
  saved : PageValid draft.catalog after.page → ∀ {viewport : Viewport}, ViewportValid viewport →
    ∀ selection, let snapshot : Snapshot := .ofPage after.page selection viewport
      (Writable snapshot → ∃ text again, Archive.write snapshot = .ok text ∧
        Archive.read text draft.catalog = .ok again ∧ again.SameContent snapshot) ∧
      (¬ Writable snapshot → Archive.write snapshot = .error (.noText .longInteger))

/-- A component is registered for its shelf alone, whatever its defaults are; what comes of a new
element of it is up to the defaults that are not given otherwise. -/
theorem defaults_left_standing (component : Component) :
    (∀ catalog : Catalog, component.shelf ∈ Catalog.shelves ↔ ∃ larger,
      catalog.register component = .ok larger ∧
        larger.get? component.kind = some component) ∧
    ∀ {draft after : Draft} {parent : Option String} {index : Option Int}
      {props style : OrderedMap Value} {id : String}, draft.Consistent →
      draft.catalog.get? component.kind = some component →
      Draft.insert parent component.kind index props style draft = .ok id after →
      LeftToDefaults draft after component parent index props style id := by
  constructor
  · intro catalog
    simp only [Catalog.register_eq_ok_iff]
    constructor
    · intro hshelf
      exact ⟨_, ⟨hshelf, rfl⟩, by rw [Catalog.get?_add, if_pos rfl]⟩
    · rintro ⟨larger, ⟨hshelf, -⟩, -⟩
      exact hshelf
  · intro draft after parent index props style id hdraft hc hrun
    obtain ⟨hprops, kept, e, hkept, hnew⟩ := exists_inserted hc hrun
    constructor
    case element =>
      refine ⟨e, hnew.stored, ?_⟩
      rw [hnew.eq, ← Props.storable_overlay_iff hprops, ← Style.storable_overlay_iff hkept]
      exact ⟨Iff.rfl, Iff.rfl⟩
    case given_iff => exact insert_completes_iff hc hrun
    case given => exact insert_completes hc hrun
    case problems_iff => exact problems_insert_iff hdraft hc hrun
    case pageValid_iff => exact pageValid_insert_iff hdraft hc hrun
    case saved =>
      intro hpage viewport hviewport selection
      have hvalid := hpage.document hviewport selection
      exact ⟨read_write hvalid, fun hw => (write_eq_error hvalid hw).1⟩

/-- A badge, whose title has to be given: the default is null. -/
def badge : Component :=
  { kind := "badge", tag := "Badge", name := "Badge", shelf := "text"
    props := .ofList [("label", .str "New"), ("title", .null)]
    style := .ofList [("padding", .str "p-2")] }

/-- With a title, a new badge is as good as one for which everything is given, and the page is read
back from what is saved. -/
theorem defaults_left_standing_badge :
    ∃ catalog draft after, Catalog.builtIn.register badge = .ok catalog ∧
      Draft.ofPage catalog {} .pair = .ok draft ∧
      Draft.insert (some "el_1") "badge" none (.ofList [("title", .str "x")]) .empty draft =
        .ok "el_3" after ∧
      (∃ e, after.page.get? "el_3" = some e ∧ Props.Storable e.props ∧ Style.Storable e.style) ∧
      after.page.problems draft.catalog true = [] ∧
      ∃ text again, Archive.write (.ofPage after.page [] .standard) = .ok text ∧
        Archive.read text draft.catalog = .ok again ∧
        again.SameContent (.ofPage after.page [] .standard) := by
  have hregister : Catalog.builtIn.register badge = .ok (Catalog.builtIn.add badge) :=
    Catalog.register_eq_ok_iff.2 ⟨by decide, rfl⟩
  have hrun : ((Draft.ofPage (Catalog.builtIn.add badge) {} .pair).toOption.any fun draft =>
      draft.catalog = Catalog.builtIn.add badge &&
        draft.page.problems draft.catalog true = [] &&
        draft.page.problems draft.catalog.orBuiltIn false = [] &&
        succeeds (Draft.insert (some "el_1") "badge" none (.ofList [("title", .str "x")]) .empty
          draft) fun id after => id = "el_3" && Writable (.ofPage after.page [] .standard)) =
      true := by
    decide +kernel
  obtain ⟨draft, hdraft, hrun⟩ := exists_of_any hrun
  simp only [Bool.and_eq_true, decide_eq_true_eq] at hrun
  obtain ⟨⟨⟨hcatalog, hnone⟩, hconsistent⟩, hrun⟩ := hrun
  obtain ⟨id, after, hrun, hid⟩ := exists_of_succeeds hrun
  simp only [Bool.and_eq_true, decide_eq_true_eq] at hid
  obtain ⟨rfl, hwritable⟩ := hid
  obtain ⟨-, hpage, -, hdraft'⟩ :=
    ofPage_consistent (by decide) pair_wellFormed.keyed pair_wellFormed.isTree.linked hdraft
  have hc : draft.catalog.get? badge.kind = some badge := by
    rw [hcatalog, Catalog.get?_add, if_pos rfl]
  have hsetProps : Props.Storable (badge.props.without (.ofList [("title", .str "x")])) :=
    ⟨by decide +kernel, by decide +kernel⟩
  have hsetStyle : Style.Storable (badge.style.without .empty) := by
    intro p hp
    obtain rfl : p = ("padding", .str "p-2") := List.mem_singleton.1 (OrderedMap.mem_without.1 hp).1
    exact ⟨by decide, _, rfl⟩
  have hpair : ∀ p ∈ Page.pair.elements.entries, Element.isValidId p.2.id = true ∧
      p.2.kind ≠ "" ∧ p.2.props = .empty ∧ p.2.style = .empty := by
    decide +kernel
  have hvalid : PageValid draft.catalog draft.page := by
    refine ⟨hdraft'.keyed, fun {x e} he => ?_, hconsistent⟩
    rw [hpage] at he
    obtain ⟨hx, hkind, hprops, hstyle⟩ := hpair _ ((Page.pair.elements.mem_entries_iff _ _).2 he)
    exact ⟨hx, hkind, by rw [hprops]; rfl, by rw [hprops]; nofun, by rw [hstyle]; nofun⟩
  have hleft := (defaults_left_standing badge).2 hdraft' hc hrun
  obtain ⟨e, he, hprops, hstyle⟩ := hleft.element
  have hafter : PageValid draft.catalog after.page :=
    (hleft.pageValid_iff hvalid).2 ⟨by decide, by decide, hsetProps, hsetStyle⟩
  refine ⟨_, draft, after, hregister, hdraft, hrun, ⟨e, he, hprops.2 hsetProps, hstyle.2 hsetStyle⟩,
    (hleft.problems_iff hnone).2 ?_, (hleft.saved hafter viewportValid_standard []).1 hwritable⟩
  intro category hm
  obtain ⟨p, hp, rfl⟩ := List.mem_map.1 hm
  exact (hsetStyle p hp).1

/-- A component with defaults for the class name, which is derived, for a title, which is null, and
for a category that there is not. -/
def odd : Component :=
  { kind := "odd", tag := "Odd", name := "Odd", shelf := "text"
    props := .ofList [("className", .str "x"), ("title", .null)]
    style := .ofList [("bogus", .int 7)] }

/-- It is registered and inserted, and the check of structure finds its style. -/
theorem defaults_left_standing_odd :
    ∃ catalog draft after e, Catalog.builtIn.register odd = .ok catalog ∧
      Draft.ofPage catalog {} {} = .ok draft ∧ draft.page.problems catalog true = [] ∧
      Draft.insert none "odd" none .empty .empty draft = .ok "el_1" after ∧
      after.page.get? "el_1" = some e ∧ Props.check e.props ≠ .ok () ∧
      e.props.get? "title" = some .null ∧ e.style.get? "bogus" = some (.int 7) ∧
      after.page.problems catalog true ≠ [] := by
  have hrun : ((Catalog.builtIn.register odd).toOption.any fun catalog =>
      (Draft.ofPage catalog {} {}).toOption.any fun draft =>
        draft.page.problems catalog true = [] &&
          succeeds (Draft.insert none "odd" none .empty .empty draft) fun id after =>
            id = "el_1" && after.page.problems catalog true ≠ [] &&
              (after.page.get? "el_1").any fun e => Props.check e.props ≠ .ok () &&
                e.props.get? "title" = some .null && e.style.get? "bogus" = some (.int 7)) =
      true := by
    decide +kernel
  obtain ⟨catalog, hregister, hrun⟩ := exists_of_any hrun
  obtain ⟨draft, hdraft, hrun⟩ := exists_of_any hrun
  obtain ⟨hnone, hrun⟩ := Bool.and_eq_true_iff.1 hrun
  obtain ⟨id, after, hrun, hafter⟩ := exists_of_succeeds hrun
  simp only [Bool.and_eq_true, decide_eq_true_eq] at hnone hafter
  obtain ⟨⟨rfl, hproblems⟩, hread⟩ := hafter
  obtain ⟨e, he, hread⟩ := (Option.any_eq_true _ _).1 hread
  simp only [Bool.and_eq_true, decide_eq_true_eq] at hread
  exact ⟨catalog, draft, after, e, hregister, hdraft, hnone, hrun, he, hread.1.1, hread.1.2,
    hread.2, hproblems⟩

end Draft

end PageBuilder
