import PageBuilder.Proofs.Maps
import PageBuilder.Proofs.Markup.PropOrder
import PageBuilder.Proofs.Style.Resolve
import PageBuilder.Source.Basic

/-!
# Generated code and ids

Ids and the order of map entries do not show in what is generated.  A page whose elements are those
of another one under new ids, with the same props and style attributes in whatever order,
has the outline of the other one with each element replaced by its `twin`; so a walk over it meets
the same kinds in the same order, and its tags are written in the same way.
-/

namespace PageBuilder

open Results

/-! ## Pages under new ids -/

/-- The element `f` is the element `e` with its children under new ids. -/
structure Element.SameUnder (name : String → String) (e f : Element) : Prop where
  kind : f.kind = e.kind
  children : f.children = e.children.map name
  props : f.props.Same e.props
  style : f.style.Same e.style

/-- The elements of a page are found on the other one under new ids. -/
structure Page.SameUnder (name : String → String) (page other : Page) : Prop where
  root : other.root = page.root.map name
  stored : ∀ {id e}, page.get? id = some e →
    ∃ f, other.get? (name id) = some f ∧ e.SameUnder name f

/-- The same failure, if it concerns an element, with the new id of that element. -/
def Failure.renamed (name : String → String) : Failure → Failure
  | .rejected (.unknownKind kind (some id)) => .rejected (.unknownKind kind (some (name id)))
  | failure => failure

/-- The element that an element has become on another page. -/
def Page.twin (other : Page) (name : String → String) (e : Element) : Element :=
  (other.get? (name e.id)).getD e

namespace Outline

mutual

/-- An outline with other elements in the same places. -/
def map (f : Element → Element) : Outline → Outline
  | .node e below => .node (f e) (mapAll f below)

def mapAll (f : Element → Element) : List Outline → List Outline
  | [] => []
  | o :: rest => o.map f :: mapAll f rest

end

variable {f : Element → Element}

/-- Renaming the elements of a tree renames its top. -/
@[simp] theorem top_map (o : Outline) : (o.map f).top = f o.top := by
  cases o
  rfl

theorem mapAll_eq (os : List Outline) : mapAll f os = os.map (map f) := by
  induction os with
  | nil => rfl
  | cons o rest ih => rw [mapAll, ih, List.map_cons]

mutual

/-- They come in the same order. -/
theorem preorder_map : ∀ o : Outline, (o.map f).preorder = o.preorder.map f
  | .node e below => by rw [map, preorder, preorder, preorders_mapAll, List.map_cons]

theorem preorders_mapAll : ∀ os : List Outline, preorders (mapAll f os) = (preorders os).map f
  | [] => rfl
  | o :: rest => by rw [mapAll, preorders, preorders, preorder_map o, preorders_mapAll rest,
      List.map_append]

end

section Written

variable {find : String → Component} {unit : String}

mutual

/-- Elements that look the same are written in the same way. -/
theorem lines_map : ∀ {o : Outline} (depth : Nat), (∀ e ∈ o.preorder, (f e).kind = e.kind ∧
    ∀ component, Tag.head component (f e) = Tag.head component e) →
      ((o.map f).tags depth).map (Tag.line find unit) = (o.tags depth).map (Tag.line find unit)
  | .node e below, depth, h => by
    obtain ⟨⟨hkind, hhead⟩, hbelow⟩ := List.forall_mem_cons.1 h
    have hrest := lines_mapAll (depth + 1) hbelow
    cases below with
    | nil => simp [map, mapAll, tags, Tag.line, hkind, hhead]
    | cons o os =>
      rw [mapAll] at hrest
      simp [map, mapAll, tags, Tag.line, hkind, hhead, hrest]

theorem lines_mapAll : ∀ {os : List Outline} (depth : Nat), (∀ e ∈ preorders os,
    (f e).kind = e.kind ∧ ∀ component, Tag.head component (f e) = Tag.head component e) →
      (allTags depth (mapAll f os)).map (Tag.line find unit) =
        (allTags depth os).map (Tag.line find unit)
  | [], _, _ => rfl
  | o :: rest, depth, h => by
    obtain ⟨hfirst, hrest⟩ := List.forall_mem_append.1 h
    rw [mapAll, allTags, allTags, List.map_append, List.map_append, lines_map depth hfirst,
      lines_mapAll depth hrest]

end

end Written

end Outline

namespace Page

variable {page other : Page} {name : String → String}

/-- The other page has an element under its new id. -/
def HasTwin (other : Page) (name : String → String) (e : Element) : Prop :=
  ∃ f, other.get? (name e.id) = some f ∧ e.SameUnder name f

/-- The twin of an element is the one under its new id. -/
theorem HasTwin.get?_twin {e : Element} (h : other.HasTwin name e) :
    other.get? (name e.id) = some (other.twin name e) ∧ e.SameUnder name (other.twin name e) := by
  obtain ⟨f, hf, hsame⟩ := h
  rw [Page.twin, hf]
  exact ⟨rfl, hsame⟩

/-- And that is the id it has. -/
theorem HasTwin.id_twin {e : Element} (h : other.HasTwin name e) (hk : other.Keyed) :
    (other.twin name e).id = name e.id :=
  hk h.get?_twin.1

mutual

/-- The outline of the other page. -/
theorem drawnFrom_twins (hk : other.Keyed) : ∀ {o : Outline}, o.DrawnFrom page →
    (∀ e ∈ o.preorder, other.HasTwin name e) → (o.map (other.twin name)).DrawnFrom other
  | .node e below, hd, htwins => by
    simp only [Outline.DrawnFrom] at hd
    obtain ⟨-, hc, hall⟩ := hd
    obtain ⟨htwin, hbelow⟩ := List.forall_mem_cons.1 htwins
    obtain ⟨hget, hsame⟩ := htwin.get?_twin
    rw [Outline.map, Outline.DrawnFrom, htwin.id_twin hk]
    refine ⟨hget, ?_, allDrawnFrom_twins hk hall hbelow⟩
    rw [hsame.children, hc, Outline.mapAll_eq, List.map_map, List.map_map]
    apply List.map_congr_left
    intro o ho
    have htop := hbelow _ (Outline.mem_preorders_iff.2 ⟨o, ho, o.top_mem_preorder⟩)
    simp [htop.id_twin hk]

theorem allDrawnFrom_twins (hk : other.Keyed) : ∀ {os : List Outline},
    Outline.AllDrawnFrom page os → (∀ e ∈ Outline.preorders os, other.HasTwin name e) →
      Outline.AllDrawnFrom other (Outline.mapAll (other.twin name) os)
  | [], _, _ => trivial
  | o :: rest, hd, htwins => by
    simp only [Outline.AllDrawnFrom] at hd
    obtain ⟨hfirst, hrest⟩ := List.forall_mem_append.1 htwins
    exact ⟨drawnFrom_twins hk hd.1 hfirst, allDrawnFrom_twins hk hd.2 hrest⟩

end

end Page

/-! ## The same tags -/

namespace Markup

/-- A tag shows the kind, the props and the style of an element, and not its id. -/
theorem head_congr {name : String → String} {e f : Element} (h : e.SameUnder name f)
    (component : Component) : Tag.head component f = Tag.head component e := by
  rw [Tag.head, Tag.head, attributeOrder_congr (h.props.perm.map Prod.fst),
    Style.classText_congr h.style]
  simp only [h.props _]

/-- So it fails to have a text for the same value. -/
theorem tagFault?_congr {name : String → String} {e f : Element} (h : e.SameUnder name f)
    (component : Component) : tagFault? component f = tagFault? component e := by
  have hprops : writtenProps component f = writtenProps component e := by
    rw [writtenProps, writtenProps, attributeOrder_congr (h.props.perm.map Prod.fst)]
    simp only [h.props _]
  rw [tagFault?, tagFault?, hprops, Style.textFault?_congr h.style]

/-- The first value without a text is that of the twin. -/
theorem firstFault?_map {find : String → Component} {f : Element → Element} {es : List Element}
    (h : ∀ e ∈ es, (f e).kind = e.kind ∧
      ∀ component, tagFault? component (f e) = tagFault? component e) :
    firstFault? find (es.map f) = firstFault? find es := by
  induction es with
  | nil => rfl
  | cons e rest ih =>
    obtain ⟨⟨hkind, hfault⟩, hrest⟩ := List.forall_mem_cons.1 h
    rw [List.map_cons, firstFault?_cons, firstFault?_cons, hkind, hfault, ih hrest]

/-! ## The same components and lines -/

variable {page other : Page} {catalog : Catalog} {name : String → String}

/-- The kinds are looked up in the same order; an unknown one is reported with the new id. -/
theorem foldlM_lookUp_map {f : Element → Element} {es : List Element}
    (h : ∀ e ∈ es, (f e).kind = e.kind ∧ (f e).id = name e.id) (found : OrderedMap Component) :
    (es.map f).foldlM (lookUp catalog) found =
      (es.foldlM (lookUp catalog) found).mapError (Failure.renamed name) := by
  induction es generalizing found with
  | nil => rfl
  | cons e rest ih =>
    obtain ⟨⟨hkind, hid⟩, hrest⟩ := List.forall_mem_cons.1 h
    rw [List.map_cons, List.foldlM_cons, List.foldlM_cons]
    have hlook : lookUp catalog found (f e) =
        (lookUp catalog found e).mapError (Failure.renamed name) := by
      rw [lookUp, lookUp, hkind, hid]
      split
      · rfl
      · unfold Catalog.require
        split <;> rfl
    rw [hlook]
    cases lookUp catalog found e with
    | ok found' => exact ih hrest found'
    | error failure => rfl

/-- Kinds that are looked up without a failure are in the catalog. -/
theorem contains_of_foldlM {es : List Element} {found known : OrderedMap Component}
    (hfound : ∀ kind, found.contains kind = true → catalog.contains kind = true)
    (h : es.foldlM (lookUp catalog) found = .ok known) :
    ∀ e ∈ es, catalog.contains e.kind = true := by
  induction es generalizing found with
  | nil => simp
  | cons e rest ih =>
    rw [List.foldlM_cons, lookUp] at h
    by_cases hc : found.contains e.kind = true
    · rw [if_pos hc] at h
      exact List.forall_mem_cons.2 ⟨hfound _ hc, ih hfound h⟩
    · rw [if_neg hc, Catalog.require] at h
      cases hcatalog : catalog.get? e.kind with
      | none =>
        rw [hcatalog] at h
        cases h
      | some component =>
        rw [hcatalog] at h
        have hkind : catalog.contains e.kind = true :=
          Option.isSome_iff_exists.2 ⟨component, hcatalog⟩
        refine List.forall_mem_cons.2 ⟨hkind, ih ?_ h⟩
        intro kind hc'
        rw [OrderedMap.contains, OrderedMap.get?_insert] at hc'
        split at hc'
        · rename_i heq
          exact heq ▸ hkind
        · exact hfound kind hc'

end Markup

/-! ## The same code -/

namespace Page

open Markup

variable {page other : Page} {catalog : Catalog} {name : String → String}

/-- What the two pages have to be for their code to be compared. -/
structure Twins (name : String → String) (page other : Page) : Prop where
  keyed : page.Keyed
  linked : page.Linked
  keyed_other : other.Keyed
  linked_other : other.Linked
  same : page.SameUnder name other

/-- Both outlines, from the roots. -/
theorem Twins.exists_outlines (h : Twins name page other) {root : String}
    (hroot : page.root = some root) :
    ∃ o : Outline, o.DrawnFrom page ∧ o.top.id = root ∧
      (o.map (other.twin name)).DrawnFrom other ∧ (other.twin name o.top).id = name root ∧
      ∀ e ∈ o.preorder,
        (other.twin name e).id = name e.id ∧ e.SameUnder name (other.twin name e) := by
  obtain ⟨o, hd, rfl, -⟩ := exists_outline_of_root h.linked h.keyed hroot
  have htwins : ∀ e ∈ o.preorder, other.HasTwin name e := fun e hm =>
    h.same.stored (Outline.drawn_of_mem_preorder h.linked hd hm).1
  refine ⟨o, hd, rfl, drawnFrom_twins h.keyed_other hd htwins,
    (htwins _ o.top_mem_preorder).id_twin h.keyed_other, ?_⟩
  intro e hm
  exact ⟨(htwins e hm).id_twin h.keyed_other, (htwins e hm).get?_twin.2⟩

/-- The components are the same, or the same kind is unknown. -/
theorem Twins.components (h : Twins name page other) (catalog : Catalog) :
    Markup.components catalog other =
      (Markup.components catalog page).mapError (Failure.renamed name) := by
  rw [Markup.components, Markup.components, h.same.root]
  cases hroot : page.root with
  | none => rfl
  | some root =>
    obtain ⟨o, hd, rfl, hd', htop, hsame⟩ := h.exists_outlines hroot
    have hother := componentsFrom_eq catalog h.linked_other hd'
    rw [Outline.top_map, htop, Outline.preorder_map,
      foldlM_lookUp_map fun e hm => ⟨(hsame e hm).2.kind, (hsame e hm).1⟩] at hother
    simp only [Option.map_some, hother, componentsFrom_eq catalog h.linked hd]

/-- Once all kinds are found the lines are the same, or the same text is wanting. -/
theorem Twins.linesFrom (h : Twins name page other) {known : OrderedMap Component}
    (hknown : Markup.components catalog page = .ok known) {root : String}
    (hroot : page.root = some root) (unit : String) (depth : Nat) :
    ∃ fault lines, Markup.linesFrom page known unit depth root = unlessFault fault (.ok lines) ∧
      Markup.linesFrom other known unit depth (name root) = unlessFault fault (.ok lines) := by
  obtain ⟨o, hd, rfl, hd', htop, hsame⟩ := h.exists_outlines hroot
  have hfold := hknown
  simp only [Markup.components, hroot, componentsFrom_eq catalog h.linked hd] at hfold
  -- The look-up has gone over the same outline, so it has every kind that is to be written.
  obtain ⟨known', hknown', hkind⟩ := components_eq h.linked hd hroot
    (contains_of_foldlM (by simp [OrderedMap.contains]) hfold)
  cases hknown.symm.trans hknown'
  refine ⟨_, _, linesFrom_eq h.linked hd hkind depth, ?_⟩
  have hother : ∀ e ∈ (o.map (other.twin name)).preorder,
      known.get? e.kind = some (catalog.componentOf e.kind) := by
    rw [Outline.preorder_map, List.forall_mem_map]
    intro e hm
    rw [(hsame e hm).2.kind]
    exact hkind e hm
  have hlines :=
    @linesFrom_eq other known catalog.componentOf unit h.linked_other _ hd' hother depth
  rwa [Outline.top_map, htop, Outline.preorder_map,
    firstFault?_map fun e hm => ⟨(hsame e hm).2.kind, tagFault?_congr (hsame e hm).2⟩,
    Outline.lines_map depth fun e hm => ⟨(hsame e hm).2.kind, head_congr (hsame e hm).2⟩] at hlines

end Page

namespace Source

variable {page other : Page} {catalog : Catalog} {name : String → String}

/-- A dialect that is unknown has nothing to do with ids. -/
theorem checkDialect_renamed (options : Options) {failure : Failure}
    (h : options.checkDialect = .error failure) : failure.renamed name = failure := by
  unfold Options.checkDialect at h
  split at h
  · cases h
  · cases h
    rfl

/-- Nor has a width that cannot be written. -/
theorem unit_renamed (options : Options) {failure : Failure}
    (h : options.unit = .error failure) : failure.renamed name = failure := by
  unfold Options.unit at h
  split at h
  · cases h
    rfl
  · cases h

/-- The lines between the imports and the end are the same, or fail for the same value. -/
theorem bodyLines_twins (h : Page.Twins name page other) {known : OrderedMap Component}
    (hknown : Markup.components catalog page = .ok known) (unit : String) :
    ∃ fault body, bodyLines page known unit = Markup.unlessFault fault (.ok body) ∧
      bodyLines other known unit = Markup.unlessFault fault (.ok body) := by
  rw [bodyLines, bodyLines, h.same.root]
  cases hroot : page.root with
  | none => exact ⟨none, _, rfl, rfl⟩
  | some root =>
    obtain ⟨fault, lines, hlines, hother⟩ := h.linesFrom hknown hroot unit 2
    simp only [Option.map_some, hlines, hother, Markup.map_unlessFault, map_ok]
    exact ⟨_, _, rfl, rfl⟩

/-- The type of the function depends on whether there is anything to show. -/
theorem signature_congr (options : Options) (h : other.isEmpty = page.isEmpty) (name : String) :
    signature options other name = signature options page name := by
  have hreturn : returnType other = returnType page := by rw [returnType, returnType, h]
  unfold signature
  rw [hreturn]

/-- The same code comes of both pages, and the same failures but for the ids in them. -/
theorem generate_twins {snapshot twin : Snapshot} (h : Page.Twins name snapshot.page twin.page)
    (options : Options) (catalog : Catalog) :
    generate twin options catalog =
      (generate snapshot options catalog).mapError (Failure.renamed name) := by
  have hempty : twin.page.isEmpty = snapshot.page.isEmpty := by
    rw [Page.isEmpty, Page.isEmpty, h.same.root, Option.isNone_map]
  unfold generate
  cases hdialect : options.checkDialect with
  | error failure => simp [Except.mapError, checkDialect_renamed options hdialect]
  | ok _ =>
    rw [h.components]
    cases hknown : Markup.components catalog.orBuiltIn snapshot.page with
    | error failure => rfl
    | ok known =>
      cases hunit : options.unit with
      | error failure =>
        simp [Except.mapError, unit_renamed options hunit]
      | ok unit =>
        obtain ⟨fault, body, hbody, hother⟩ := bodyLines_twins h hknown unit
        simp only [Except.mapError, ok_bind, hbody, hother, signature_congr options hempty]
        cases fault <;> rfl

/-- And the same markup. -/
theorem generateMarkup_twins {snapshot twin : Snapshot}
    (h : Page.Twins name snapshot.page twin.page) (options : Options) (catalog : Catalog) :
    generateMarkup twin options catalog =
      (generateMarkup snapshot options catalog).mapError (Failure.renamed name) := by
  unfold generateMarkup
  rw [h.components]
  cases hknown : Markup.components catalog.orBuiltIn snapshot.page with
  | error failure => rfl
  | ok known =>
    rw [h.same.root]
    cases hroot : snapshot.page.root with
    | none => rfl
    | some root =>
      cases hunit : options.unit with
      | error failure => simp [Except.mapError, unit_renamed options hunit]
      | ok unit =>
        obtain ⟨fault, lines, hlines, hother⟩ := h.linesFrom hknown hroot unit 0
        simp only [Except.mapError, ok_bind, Option.map_some, hlines, hother]
        cases fault <;> rfl

/-- Two snapshots of trees that are the same but for their ids, the order of map entries, the
selection and the viewport: `generate` gives the same source on both, or fails in the same way, on
elements that correspond, and so does `generateMarkup`. -/
theorem generate_renamed {checker checker' : Catalog} {snapshot twin : Snapshot}
    (hk : snapshot.page.Keyed) (hp : snapshot.page.problems checker false = [])
    (hk' : twin.page.Keyed) (hp' : twin.page.problems checker' false = [])
    (hsame : snapshot.page.SameUnder name twin.page) (options : Options) (catalog : Catalog) :
    generate twin options catalog =
        (generate snapshot options catalog).mapError (Failure.renamed name) ∧
      generateMarkup twin options catalog =
        (generateMarkup snapshot options catalog).mapError (Failure.renamed name) := by
  have h : Page.Twins name snapshot.page twin.page :=
    ⟨hk, (Page.problems_eq_nil_iff.1 hp).1.linked, hk', (Page.problems_eq_nil_iff.1 hp').1.linked,
      hsame⟩
  exact ⟨generate_twins h options catalog, generateMarkup_twins h options catalog⟩

/-- A text in a container, stored in two orders and under other ids, with props and style
attributes set in two orders. -/
theorem generate_renamed_pair :
    let props : OrderedMap Value := .ofList [("title", .str "Top"), ("id", .int 1)]
    let props' : OrderedMap Value := .ofList [("id", .int 1), ("title", .str "Top")]
    let style : OrderedMap Value := .ofList [("gap", .str "md"), ("display", .str "flex")]
    let style' : OrderedMap Value := .ofList [("display", .str "flex"), ("gap", .str "md")]
    let page : Page := ⟨.ofList [
      ("el_1", ⟨"el_1", "container", props, style, ["el_2"], none⟩),
      ("el_2", ⟨"el_2", "text", .empty, .empty, [], some "el_1"⟩)], some "el_1"⟩
    let other : Page := ⟨.ofList [
      ("a", ⟨"a", "text", .empty, .empty, [], some "b"⟩),
      ("b", ⟨"b", "container", props', style', ["a"], none⟩)], some "b"⟩
    let name : String → String := fun id => if id = "el_1" then "b" else "a"
    generate ⟨other, [], .empty⟩ {} .builtIn =
        (generate ⟨page, ["el_1"], .standard⟩ {} .builtIn).mapError (Failure.renamed name) ∧
      generateMarkup ⟨other, [], .empty⟩ {} .builtIn =
        (generateMarkup ⟨page, ["el_1"], .standard⟩ {} .builtIn).mapError
          (Failure.renamed name) := by
  intro props props' style style' page other name
  have hprops : props'.Same props := OrderedMap.ofList_swap (by decide) _ _
  have hstyle : style'.Same style := OrderedMap.ofList_swap (by decide) _ _
  have hsame : page.SameUnder name other := by
    refine ⟨rfl, fun {id e} he => ?_⟩
    have hm := (page.elements.mem_entries_iff id e).2 he
    rcases List.mem_cons.1 hm with heq | hm
    · cases heq
      exact ⟨_, rfl, rfl, rfl, hprops, hstyle⟩
    · cases List.mem_singleton.1 hm
      exact ⟨_, rfl, rfl, rfl, .refl _, .refl _⟩
  exact @generate_renamed name .builtIn .builtIn ⟨page, ["el_1"], .standard⟩ ⟨other, [], .empty⟩
    (Page.keyed_of_entries (by decide)) (by decide +kernel)
    (Page.keyed_of_entries (by decide)) (by decide +kernel) hsame {} .builtIn

end Source

end PageBuilder
