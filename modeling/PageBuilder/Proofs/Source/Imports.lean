import Mathlib.Algebra.Group.Int.Defs
import PageBuilder.Proofs.Page.Order
import PageBuilder.Proofs.Text.Sorted
import PageBuilder.Source.Basic

/-!
# What generated code imports

Code is generated in three passes over a page: kinds are looked up, lines are written, and imports
are made of the components that were found.  The second and the third rest on the first: once every
kind is found nothing can fail any more (`generated_of_known`), and the components found are those
of the elements, so that the imports name every tag of the lines and no other (`exactImports`).

The look-up fails at the first element of an unknown kind, in the order of a traversal.
-/

namespace PageBuilder

/-! ## The tags of a page -/

namespace Tag

/-- The element that a tag begins or ends. -/
def element : Tag → Element
  | alone e _ => e
  | opens e _ => e
  | closes e _ => e

/-- The name that a tag is written with. -/
def name (find : String → Component) (tag : Tag) : String :=
  (find tag.element.kind).tag

theorem element_of_beginning {tag : Tag} {e : Element} (h : tag.beginning = some e) :
    tag.element = e := by
  cases tag with
  | alone | opens => exact Option.some.inj h
  | closes => cases h

end Tag

namespace Outline

mutual

theorem element_mem_preorder : ∀ {o : Outline} {depth : Nat} {tag : Tag}, tag ∈ o.tags depth →
    tag.element ∈ o.preorder
  | .node e [], depth, tag, h => by
    rw [List.mem_singleton.1 h]
    exact List.mem_cons_self
  | .node e (o :: rest), depth, tag, h => by
    rcases List.mem_append.1 h with h | h
    · rcases List.mem_cons.1 h with rfl | h
      · exact List.mem_cons_self
      · exact List.mem_cons_of_mem _ (element_mem_preorders h)
    · rw [List.mem_singleton.1 h]
      exact List.mem_cons_self

theorem element_mem_preorders : ∀ {os : List Outline} {depth : Nat} {tag : Tag},
    tag ∈ allTags depth os → tag.element ∈ preorders os
  | o :: rest, depth, tag, h => by
    rcases List.mem_append.1 h with h | h
    · exact List.mem_append_left _ (element_mem_preorder h)
    · exact List.mem_append_right _ (element_mem_preorders h)

end

/-- The names in the tags of an outline are those of its elements. -/
theorem exists_tag_iff {o : Outline} {depth : Nat} {find : String → Component} {name : String} :
    (∃ tag ∈ o.tags depth, tag.name find = name) ↔
      ∃ e ∈ o.preorder, (find e.kind).tag = name := by
  constructor
  · rintro ⟨tag, htag, rfl⟩
    exact ⟨tag.element, element_mem_preorder htag, rfl⟩
  · rintro ⟨e, he, rfl⟩
    rw [← filterMap_tags o depth] at he
    obtain ⟨tag, htag, hbeginning⟩ := List.mem_filterMap.1 he
    exact ⟨tag, htag, by rw [Tag.name, Tag.element_of_beginning hbeginning]⟩

end Outline

namespace Source

open Results

/-! ## Imports -/

theorem pairwise_sortedSet (names : List String) : (sortedSet names).Pairwise (· < ·) :=
  Text.pairwise_lt_mergeSort (Text.nodup_eraseDups names)

theorem mem_sortedSet {name : String} {names : List String} :
    name ∈ sortedSet names ↔ name ∈ names := by
  rw [sortedSet, List.mem_mergeSort, List.mem_eraseDups]

/-- What is in increasing order already is left as it is. -/
theorem sortedSet_eq_self {names : List String} (h : names.Pairwise (· < ·)) :
    sortedSet names = names :=
  Text.eq_of_increasing ((pairwise_sortedSet names).imp Text.codePoints_lt)
    (h.imp Text.codePoints_lt) fun _ => mem_sortedSet

/-- The lines of a header that imports React and then tags from modules. -/
def headerOf (imports : List (String × List String)) : String :=
  Text.join "\n" ("import React from 'react';" :: imports.map fun i =>
    "import \x7b " ++ Text.join ", " i.2 ++ " \x7d from '" ++ i.1 ++ "';") ++ "\n\n"

/-- Imports name the modules of some elements and, from each, the tags of those of the elements that
belong to it; modules and tags are in increasing order, and none is named twice. -/
structure ExactImports (options : Options) (find : String → Component) (es : List Element)
    (imports : List (String × List String)) : Prop where
  modules_increasing : (imports.map Prod.fst).Pairwise (· < ·)
  mem_modules_iff : ∀ module, module ∈ imports.map Prod.fst ↔
    ∃ e ∈ es, moduleOf options (find e.kind) = module
  tags_increasing : ∀ i ∈ imports, i.2.Pairwise (· < ·)
  mem_tags_iff : ∀ i ∈ imports, ∀ tag, tag ∈ i.2 ↔
    ∃ e ∈ es, moduleOf options (find e.kind) = i.1 ∧ (find e.kind).tag = tag

section Imports

variable {options : Options} {find : String → Component} {es : List Element}
  {imports : List (String × List String)}

/-- A tag is imported exactly if it is that of an element. -/
theorem ExactImports.exists_import_iff (h : ExactImports options find es imports) (tag : String) :
    (∃ i ∈ imports, tag ∈ i.2) ↔ ∃ e ∈ es, (find e.kind).tag = tag := by
  constructor
  · rintro ⟨i, hi, hm⟩
    obtain ⟨e, he, -, htag⟩ := (h.mem_tags_iff i hi tag).1 hm
    exact ⟨e, he, htag⟩
  · rintro ⟨e, he, htag⟩
    obtain ⟨i, hi, hmodule⟩ := List.mem_map.1 ((h.mem_modules_iff _).2 ⟨e, he, rfl⟩)
    exact ⟨i, hi, (h.mem_tags_iff i hi tag).2 ⟨e, he, hmodule.symm, htag⟩⟩

/-- The modules of components, each with its tags. -/
def importsOf (options : Options) (components : List Component) : List (String × List String) :=
  (modules options components).map fun module => (module, tagsOf options components module)

theorem importHeader_eq (options : Options) (components : List Component) :
    importHeader options components = headerOf (importsOf options components) := by
  rw [importHeader, headerOf, importsOf, List.map_map]
  rfl

theorem mem_modules {components : List Component} {module : String} :
    module ∈ modules options components ↔
      ∃ component ∈ components, moduleOf options component = module := by
  rw [modules, mem_sortedSet, List.mem_map]

theorem mem_tagsOf {components : List Component} {module tag : String} :
    tag ∈ tagsOf options components module ↔
      ∃ component ∈ components, moduleOf options component = module ∧ component.tag = tag := by
  simp only [tagsOf, mem_sortedSet, List.mem_map, List.mem_filter, decide_eq_true_eq, and_assoc]

/-- The imports are those of the components that are shown, whatever order they come in. -/
theorem exactImports {components : List Component}
    (hcomponents : ∀ component, component ∈ components ↔ ∃ e ∈ es, find e.kind = component) :
    ExactImports options find es (importsOf options components) := by
  have hmodules : (importsOf options components).map Prod.fst = modules options components := by
    rw [importsOf, List.map_map]
    exact List.map_id _
  constructor
  case modules_increasing =>
    rw [hmodules]
    exact pairwise_sortedSet _
  case mem_modules_iff =>
    intro module
    rw [hmodules, mem_modules]
    simp only [hcomponents]
    constructor
    · rintro ⟨_, ⟨e, he, rfl⟩, hmodule⟩
      exact ⟨e, he, hmodule⟩
    · rintro ⟨e, he, hmodule⟩
      exact ⟨_, ⟨e, he, rfl⟩, hmodule⟩
  case tags_increasing =>
    intro i hi
    obtain ⟨module, -, rfl⟩ := List.mem_map.1 hi
    exact pairwise_sortedSet _
  case mem_tags_iff =>
    intro i hi tag
    obtain ⟨module, -, rfl⟩ := List.mem_map.1 hi
    rw [mem_tagsOf]
    simp only [hcomponents]
    constructor
    · rintro ⟨_, ⟨e, he, rfl⟩, hmodule, htag⟩
      exact ⟨e, he, hmodule, htag⟩
    · rintro ⟨e, he, hmodule, htag⟩
      exact ⟨_, ⟨e, he, rfl⟩, hmodule, htag⟩

end Imports

/-! ## What is written -/

/-- The lines inside the exported function of a page, given the tags of its markup. -/
def bodyOf (page : Page) (find : String → Component) (unit : String) (tags : List Tag) :
    List String :=
  if page.isEmpty then [unit ++ "return null;"]
  else (unit ++ "return (") :: tags.map (Tag.line find unit) ++ [unit ++ ");"]

/-- What is generated of a page whose elements, in document order, are `es`, if their kinds are all
known. -/
structure Generated (snapshot : Snapshot) (options : Options) (catalog : Catalog) (unit : String)
    (es : List Element) : Prop where
  markup : ∃ text, generateMarkup snapshot options catalog = .ok text
  /-- The tags in the lines are those of the elements and those that are imported. -/
  source : ∃ header tags, generate snapshot options catalog =
      .ok ⟨Text.tidy (assemble header
        (signature options snapshot.page (componentName options.name))
        (Text.join "\n" (bodyOf snapshot.page catalog.componentOf unit tags))),
        componentName options.name⟩ ∧
    tags.filterMap Tag.beginning = es ∧
    (options.imports = false → header = "") ∧
    (options.imports = true → ∃ imports, header = headerOf imports ∧
      ExactImports options catalog.componentOf es imports ∧
      ∀ name, (∃ i ∈ imports, name ∈ i.2) ↔ ∃ tag ∈ tags, tag.name catalog.componentOf = name)
  /-- Every name in the order of writing is that of a prop. -/
  props : ∀ e ∈ es, ∀ name ∈
    Markup.attributeOrder e.props (catalog.componentOf e.kind).props, e.props.contains name = true

section Writing

variable {catalog : Catalog} {snapshot : Snapshot} {options : Options} {unit : String}
  {known : OrderedMap Component} {failure : Failure}

theorem generate_of_error (hcatalog : catalog.orBuiltIn = catalog)
    (hdialect : options.checkDialect = .ok ())
    (h : Markup.components catalog snapshot.page = .error failure) :
    generate snapshot options catalog = .error failure ∧
      generateMarkup snapshot options catalog = .error failure := by
  constructor
  · rw [generate, hdialect, ok_bind, hcatalog, h, error_bind]
  · rw [generateMarkup, hcatalog, h, error_bind]

theorem generate_of_body {body : List String} (hcatalog : catalog.orBuiltIn = catalog)
    (hdialect : options.checkDialect = .ok ()) (hunit : options.unit = .ok unit)
    (hknown : Markup.components catalog snapshot.page = .ok known)
    (hbody : bodyLines snapshot.page known unit = .ok body) :
    generate snapshot options catalog =
      .ok ⟨Text.tidy (assemble (if options.imports then importHeader options known.values else "")
        (signature options snapshot.page (componentName options.name)) (Text.join "\n" body)),
        componentName options.name⟩ := by
  rw [generate, hdialect, ok_bind, hcatalog, hknown, ok_bind, hunit, ok_bind, hbody, ok_bind]
  rfl

theorem exists_generateMarkup (hcatalog : catalog.orBuiltIn = catalog)
    (hunit : options.unit = .ok unit)
    (hknown : Markup.components catalog snapshot.page = .ok known)
    (hlines : ∀ {root}, snapshot.page.root = some root →
      ∃ lines, Markup.linesFrom snapshot.page known unit 0 root = .ok lines) :
    ∃ text, generateMarkup snapshot options catalog = .ok text := by
  rw [generateMarkup, hcatalog, hknown, ok_bind]
  cases hroot : snapshot.page.root with
  | none => exact ⟨_, rfl⟩
  | some root =>
    obtain ⟨lines, hlines⟩ := hlines hroot
    simp only [hunit, hlines, ok_bind]
    exact ⟨_, rfl⟩

/-- What keeps the lines from being written keeps the code from being generated. -/
theorem generate_of_fault {root : String} (hcatalog : catalog.orBuiltIn = catalog)
    (hdialect : options.checkDialect = .ok ()) (hunit : options.unit = .ok unit)
    (hknown : Markup.components catalog snapshot.page = .ok known)
    (hroot : snapshot.page.root = some root)
    (hlines : ∀ depth, Markup.linesFrom snapshot.page known unit depth root = .error failure) :
    generate snapshot options catalog = .error failure ∧
      generateMarkup snapshot options catalog = .error failure := by
  constructor
  · simp only [generate, hdialect, hcatalog, hknown, hunit, bodyLines, hroot, hlines, map_error,
      ok_bind, error_bind]
  · simp only [generateMarkup, hcatalog, hknown, hunit, hroot, hlines, ok_bind, error_bind]

/-- Once the kinds are found, the markup of a tree is written at any depth, if every value that
stands in it has a text. -/
theorem exists_tags {page : Page} {es : List Element} (hl : page.Linked) (hk : page.Keyed)
    (hes : page.traverse none = .ok es)
    (hkind : ∀ e ∈ es, known.get? e.kind = some (catalog.componentOf e.kind)) (depth : Nat) :
    ∃ tags : List Tag, tags.filterMap Tag.beginning = es ∧
      (∀ name, (∃ tag ∈ tags, tag.name catalog.componentOf = name) ↔
        ∃ e ∈ es, (catalog.componentOf e.kind).tag = name) ∧
      ∀ {root}, page.root = some root → Markup.linesFrom page known unit depth root =
        Markup.unlessFault (Markup.firstFault? catalog.componentOf es)
          (.ok (tags.map (Tag.line catalog.componentOf unit))) := by
  cases hroot : page.root with
  | none =>
    rw [Page.traverse, hroot] at hes
    cases hes
    exact ⟨[], rfl, by simp, by simp⟩
  | some root =>
    obtain ⟨o, hd, rfl, -⟩ := Markup.exists_outline_of_root hl hk hroot
    rw [Page.traverse_none hroot, hl.traverse_of_drawnFrom hk hd] at hes
    cases hes
    refine ⟨o.tags depth, Outline.filterMap_tags o depth,
      fun _ => Outline.exists_tag_iff, ?_⟩
    rintro root ⟨⟩
    exact Markup.linesFrom_eq hl hd hkind depth

/-- On a tree of known kinds all components are found. -/
theorem exists_known {es : List Element} (hl : snapshot.page.Linked) (hk : snapshot.page.Keyed)
    (hes : snapshot.page.traverse none = .ok es)
    (hkinds : ∀ e ∈ es, catalog.contains e.kind = true) :
    ∃ known, Markup.components catalog snapshot.page = .ok known ∧
      (∀ e ∈ es, known.get? e.kind = some (catalog.componentOf e.kind)) ∧
      ∀ component, component ∈ known.values ↔ ∃ e ∈ es, catalog.componentOf e.kind = component := by
  obtain ⟨known, hfold, hget⟩ := Markup.foldlM_lookUp hkinds .empty
  refine ⟨known, (hl.components_eq_foldlM hk hes catalog).trans hfold, fun e he => ?_,
    fun _ => Markup.mem_values_of_foldlM hkinds hfold⟩
  rw [hget, if_pos (List.mem_map_of_mem he)]
  rfl

theorem generate_of_firstFault {es : List Element} (hl : snapshot.page.Linked)
    (hk : snapshot.page.Keyed) (hcatalog : catalog.orBuiltIn = catalog)
    (hdialect : options.checkDialect = .ok ()) (hunit : options.unit = .ok unit)
    (hes : snapshot.page.traverse none = .ok es)
    (hkinds : ∀ e ∈ es, catalog.contains e.kind = true) {fault : TextFault}
    (hfault : Markup.firstFault? catalog.componentOf es = some fault) :
    generate snapshot options catalog = .error (.noText fault) ∧
      generateMarkup snapshot options catalog = .error (.noText fault) := by
  obtain ⟨known, hknown, hkind, -⟩ := exists_known hl hk hes hkinds
  cases hroot : snapshot.page.root with
  | none =>
    rw [Page.traverse, hroot] at hes
    cases hes
    cases hfault
  | some root =>
    refine generate_of_fault hcatalog hdialect hunit hknown hroot fun depth => ?_
    obtain ⟨tags, -, -, hlines⟩ := @exists_tags catalog unit known _ _ hl hk hes hkind depth
    rw [hlines hroot, hfault]
    rfl

/-- Where kinds are known and values have texts, both texts are written. -/
theorem generated_of_known {es : List Element} (hl : snapshot.page.Linked)
    (hk : snapshot.page.Keyed) (hcatalog : catalog.orBuiltIn = catalog)
    (hdialect : options.checkDialect = .ok ()) (hunit : options.unit = .ok unit)
    (hes : snapshot.page.traverse none = .ok es)
    (hkinds : ∀ e ∈ es, catalog.contains e.kind = true)
    (hfault : Markup.firstFault? catalog.componentOf es = none) :
    Generated snapshot options catalog unit es := by
  obtain ⟨known, hknown, hkind, hvalues⟩ := exists_known hl hk hes hkinds
  constructor
  case markup =>
    obtain ⟨tags, -, -, hlines⟩ := @exists_tags catalog unit known _ _ hl hk hes hkind 0
    rw [hfault] at hlines
    exact exists_generateMarkup hcatalog hunit hknown fun hroot => ⟨_, hlines hroot⟩
  case source =>
    obtain ⟨tags, hbeginning, hnames, hlines⟩ :=
      @exists_tags catalog unit known _ _ hl hk hes hkind 2
    rw [hfault] at hlines
    have hbody : bodyLines snapshot.page known unit =
        .ok (bodyOf snapshot.page catalog.componentOf unit tags) := by
      rw [bodyLines, bodyOf, Page.isEmpty]
      cases hroot : snapshot.page.root with
      | none => rfl
      | some root =>
        simp only [hlines hroot]
        rfl
    refine ⟨_, tags, generate_of_body hcatalog hdialect hunit hknown hbody, hbeginning, ?_, ?_⟩
    · intro himports
      simp [himports]
    -- The tags in the markup and those in the imports come from one walk over the page.
    · intro himports
      have hexact := @exactImports options catalog.componentOf es known.values hvalues
      refine ⟨_, ?_, hexact, ?_⟩
      · rw [if_pos himports, importHeader_eq]
      · intro name
        rw [hexact.exists_import_iff, hnames]
  case props =>
    intro e _ name hm
    exact (e.props.contains_iff name).2 ((Markup.attributeOrder_perm _ _).mem_iff.1 hm)

end Writing

/-! ## How generating ends -/

/-- Generating code reports an element of an unknown kind. -/
def ReportsKind {α : Type} (result : Except Failure α) : Prop :=
  ∃ kind element, result = .error (.rejected (.unknownKind kind element))

/-- Of a tree of elements under their own ids, with a known dialect and an indentation that can be
written: the first element of an unknown kind is reported, by `generate` and by `generateMarkup`.
Without one both fail for the first value that has no text; and if all have texts both write, and
the imports are those of the tags that are written. -/
theorem generate_ends {checker catalog : Catalog} {snapshot : Snapshot} {options : Options}
    {unit : String} (hk : snapshot.page.Keyed) (hp : snapshot.page.problems checker false = [])
    (hcatalog : catalog.components.isEmpty = false)
    (hdialect : Failure.dialectNames.contains options.dialect = true)
    (hunit : options.unit = .ok unit) :
    ∃ es, snapshot.page.traverse none = .ok es ∧ es.Perm snapshot.page.elements.values ∧
      (ReportsKind (generate snapshot options catalog) ↔
        ∃ id e, snapshot.page.get? id = some e ∧ catalog.contains e.kind = false) ∧
      (ReportsKind (generateMarkup snapshot options catalog) ↔
        ∃ id e, snapshot.page.get? id = some e ∧ catalog.contains e.kind = false) ∧
      (Markup.firstFault? catalog.componentOf es = none ↔ snapshot.page.HasTexts) ∧
      match es.find? fun e => !catalog.contains e.kind,
        Markup.firstFault? catalog.componentOf es with
      | some e, _ =>
        generate snapshot options catalog =
            .error (.rejected (.unknownKind e.kind (some e.id))) ∧
          generateMarkup snapshot options catalog =
            .error (.rejected (.unknownKind e.kind (some e.id)))
      | none, some fault =>
        generate snapshot options catalog = .error (.noText fault) ∧
          generateMarkup snapshot options catalog = .error (.noText fault)
      | none, none => Generated snapshot options catalog unit es := by
  have hl := (Page.problems_eq_nil_iff.1 hp).1.linked
  have hself := Catalog.orBuiltIn_eq hcatalog
  have hcheck : options.checkDialect = .ok () := if_pos hdialect
  obtain ⟨es, hes, hperm, -⟩ := hl.exists_walk hk
  have hlook := hl.components_eq_foldlM hk hes catalog
  have htexts : Markup.firstFault? catalog.componentOf es = none ↔ snapshot.page.HasTexts := by
    simp only [Markup.firstFault?_eq_none_iff, hperm.mem_iff, hk.mem_values_iff]
    exact ⟨fun h id e he => h e (hk he ▸ he), fun h e he => h e.id e he⟩
  -- The walk meets all elements, so a kind is unknown on the page as soon as it is in the walk.
  have hstranger : (∃ id e, snapshot.page.get? id = some e ∧ catalog.contains e.kind = false) ↔
      ∃ e ∈ es, catalog.contains e.kind = false := by
    simp only [hperm.mem_iff, hk.mem_values_iff]
    constructor
    · rintro ⟨id, e, he, hkind⟩
      have hid : e.id = id := hk he
      exact ⟨e, hid ▸ he, hkind⟩
    · rintro ⟨e, he, hkind⟩
      exact ⟨e.id, e, he, hkind⟩
  refine ⟨es, hes, hperm, ?_⟩
  rw [hstranger]
  cases hfind : es.find? fun e => !catalog.contains e.kind with
  | some e =>
    obtain ⟨hkind, before, after, rfl, hbefore⟩ := List.find?_eq_some_iff_append.1 hfind
    simp only [Bool.not_eq_true', Bool.not_not] at hkind hbefore
    obtain ⟨hgenerate, hmarkup⟩ := generate_of_error hself hcheck
      (hlook.trans (Markup.foldlM_lookUp_unknown hbefore hkind))
    have hexists : ∃ x ∈ before ++ e :: after, catalog.contains x.kind = false :=
      ⟨e, by simp, hkind⟩
    refine ⟨iff_of_true ⟨_, _, hgenerate⟩ hexists, iff_of_true ⟨_, _, hmarkup⟩ hexists, htexts,
      hgenerate, hmarkup⟩
  | none =>
    have hkinds : ∀ e ∈ es, catalog.contains e.kind = true := by
      simpa using List.find?_eq_none.1 hfind
    have hnone : ¬ ∃ e ∈ es, catalog.contains e.kind = false := by
      rintro ⟨e, he, hkind⟩
      exact absurd (hkinds e he) (by simp [hkind])
    cases hfault : Markup.firstFault? catalog.componentOf es with
    | some fault =>
      obtain ⟨hgenerate, hmarkup⟩ :=
        generate_of_firstFault hl hk hself hcheck hunit hes hkinds hfault
      rw [hfault] at htexts
      refine ⟨iff_of_false ?_ hnone, iff_of_false ?_ hnone, htexts, hgenerate, hmarkup⟩
      · rintro ⟨kind, element, herror⟩
        cases hgenerate.symm.trans herror
      · rintro ⟨kind, element, herror⟩
        cases hmarkup.symm.trans herror
    | none =>
      have hwritten := generated_of_known hl hk hself hcheck hunit hes hkinds hfault
      obtain ⟨header, tags, hgenerate, -⟩ := hwritten.source
      obtain ⟨text, hmarkup⟩ := hwritten.markup
      rw [hfault] at htexts
      refine ⟨iff_of_false ?_ hnone, iff_of_false ?_ hnone, htexts, hwritten⟩
      · rintro ⟨kind, element, herror⟩
        cases hgenerate.symm.trans herror
      · rintro ⟨kind, element, herror⟩
        cases hmarkup.symm.trans herror

/-- A box with a text is written; where texts are all that is known, the box is reported. -/
theorem generate_ends_pair :
    let snapshot : Snapshot := { page := .pair }
    let texts : Catalog := Catalog.empty.add
      { kind := "text", tag := "Text", name := "Text", shelf := "basic", container := false }
    (∃ es, snapshot.page.traverse none = .ok es ∧ Generated snapshot {} .builtIn "  " es) ∧
    generate snapshot {} texts =
      .error (.rejected (.unknownKind "container" (some "el_1"))) := by
  intro snapshot texts
  have hp : snapshot.page.problems .builtIn false = [] :=
    (Page.wellFormed_iff_problems.1 Page.pair_wellFormed).2
  have hdialect : Failure.dialectNames.contains ({} : Options).dialect = true := by decide
  have hunit : ({} : Options).unit = .ok "  " := by decide
  have hkinds : (snapshot.page.traverse none).toOption.any (fun es =>
      es.all (fun e => Catalog.builtIn.contains e.kind) &&
        (es.find? fun e => !texts.contains e.kind).any fun e =>
          decide (e.kind = "container" ∧ e.id = "el_1")) = true := by
    decide +kernel
  obtain ⟨walk, hwalk, hkinds⟩ := exists_of_any hkinds
  obtain ⟨hknown, hfirst⟩ := Bool.and_eq_true_iff.1 hkinds
  obtain ⟨first, hfind, hbox⟩ := (Option.any_eq_true _ _).1 hfirst
  obtain ⟨hkind, hid⟩ := of_decide_eq_true hbox
  have hnone : walk.find? (fun e => !Catalog.builtIn.contains e.kind) = none :=
    List.find?_eq_none.2 fun e he => by simp [List.all_eq_true.1 hknown e he]
  constructor
  · obtain ⟨es, hes, -, -, -, htexts, hends⟩ := @generate_ends .builtIn .builtIn snapshot {} "  "
      Page.pair_wellFormed.keyed hp (by decide) hdialect hunit
    cases hes.symm.trans hwalk
    rw [hnone, htexts.2 (by decide +kernel)] at hends
    exact ⟨_, hwalk, hends⟩
  · obtain ⟨es, hes, -, -, -, -, hends⟩ := @generate_ends .builtIn texts snapshot {} "  "
      Page.pair_wellFormed.keyed hp (by decide) hdialect hunit
    cases hes.symm.trans hwalk
    rw [hfind] at hends
    rw [← hkind, ← hid]
    exact hends.1

/-- A width that stands for no indentation at all, but is no 64-bit number, and a title that cannot
be written: nothing is unknown, and nothing is generated. -/
theorem generate_ends_limits :
    generate { page := .pair } { indent := -(2 ^ 63) - 1 } .builtIn = .error .indentTooWide ∧
    generateMarkup { page := .pair } { indent := -(2 ^ 63) - 1 } .builtIn =
      .error .indentTooWide ∧
    generate { page := Markup.overlongPage } {} .builtIn = .error (.noText .longInteger) ∧
      generateMarkup { page := Markup.overlongPage } {} .builtIn =
        .error (.noText .longInteger) := by
  refine ⟨by decide +kernel, by decide +kernel, ?_⟩
  obtain ⟨known, hknown, hlines⟩ := Markup.lines_overlongPage
  exact generate_of_fault (Catalog.orBuiltIn_eq (by decide)) (by decide) (by decide) hknown rfl
    (hlines "  ")

end Source

end PageBuilder
