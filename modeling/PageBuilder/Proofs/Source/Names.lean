import Mathlib.Data.List.Pairwise
import PageBuilder.Proofs.Page.Attributes
import PageBuilder.Proofs.Source.Imports

/-!
# The names that a source file binds

A source file binds React, the tags that it imports and the name of the function that it exports.
The function's name is made of free text alone, and is always a component's name
(`isComponentName_componentName`); the tags come from the catalog and the page.  Nothing compares
them.  So a name is bound twice exactly when the function is called like something imported, when a
tag is called React, or when two elements have the same tag from two modules
(`nodup_boundNames_iff`).
-/

namespace PageBuilder.Source

open Results

variable {options : Options} {components : List Component} {c : Char} {name : String}

/-! ## The name of the exported function -/

/-- A capital letter of ASCII, then letters and digits of ASCII. -/
def IsComponentName (name : String) : Prop :=
  ∃ c rest, name.toList = c :: rest ∧ c.isUpper = true ∧ ∀ d ∈ rest, isNameChar d = true

/-- What holds of all characters up to the last letter of ASCII holds of a letter. -/
theorem of_isAlpha {p : Char → Prop} (hp : ∀ n : Fin 0x7b, p (Char.ofNat n.val))
    (h : c.isAlpha = true) : p c := by
  have hc := hp ⟨c.toNat, Nat.lt_succ_of_le (Props.toNat_of_isAlpha h).2⟩
  rwa [Char.ofNat_toNat] at hc

theorem isUpper_toUpper (h : c.isAlpha = true) : c.toUpper.isUpper = true := by
  refine of_isAlpha (p := fun c => c.isAlpha = true → c.toUpper.isUpper = true) ?_ h h
  decide

/-- A capital is no digit and its own capital. -/
theorem upper_cases (h : c.isUpper = true) :
    isNameChar c = true ∧ c.isDigit = false ∧ c.toUpper = c := by
  have halpha : c.isAlpha = true := Bool.or_eq_true_iff.2 (.inl h)
  refine of_isAlpha (p := fun c => c.isUpper = true →
    isNameChar c = true ∧ c.isDigit = false ∧ c.toUpper = c) ?_ halpha h
  decide

theorem isComponentName_componentName (text : String) : IsComponentName (componentName text) := by
  have hchars : ∀ d ∈ text.toList.filter isNameChar, isNameChar d = true :=
    fun _ hd => (List.mem_filter.1 hd).2
  have hfallback : ∀ d ∈ "omponent".toList, isNameChar d = true := List.all_eq_true.1 rfl
  unfold componentName
  split
  case h_1 => exact ⟨'C', "omponent".toList, rfl, rfl, hfallback⟩
  case h_2 c rest hcs =>
    rw [hcs] at hchars
    obtain ⟨hfirst, hrest⟩ := List.forall_mem_cons.1 hchars
    split
    case isTrue =>
      refine ⟨'C', "omponent".toList ++ c :: rest, ?_, rfl,
        List.forall_mem_append.2 ⟨hfallback, hchars⟩⟩
      rw [String.toList_append, String.toList_ofList]
      rfl
    case isFalse hdigit =>
      have halpha : c.isAlpha = true := by simpa [isNameChar, hdigit] using hfirst
      exact ⟨c.toUpper, rest, String.toList_ofList, isUpper_toUpper halpha, hrest⟩

/-- Making a component's name of one changes nothing. -/
theorem componentName_eq_self (h : IsComponentName name) : componentName name = name := by
  obtain ⟨c, rest, hname, hc, hrest⟩ := h
  obtain ⟨hchar, hdigit, hupper⟩ := upper_cases hc
  have hfilter : name.toList.filter isNameChar = c :: rest := by
    rw [hname, List.filter_eq_self.2 (List.forall_mem_cons.2 ⟨hchar, hrest⟩)]
  simp only [componentName, hfilter, hdigit, Bool.false_eq_true, if_false, hupper]
  rw [← hname, String.ofList_toList]

/-! ## What is imported -/

/-- Components of one tag are imported from one module. -/
def OneModulePerTag (options : Options) (shown : Component → Prop) : Prop :=
  ∀ a, shown a → ∀ b, shown b → a.tag = b.tag → moduleOf options a = moduleOf options b

theorem pairwise_disjoint_iff :
    (importsOf options components).Pairwise (fun i j => i.2.Disjoint j.2) ↔
      OneModulePerTag options (· ∈ components) := by
  rw [importsOf, List.pairwise_map]
  constructor
  · intro h a ha b hb htag
    by_contra hne
    have hsymm : Std.Symm fun x y : String =>
        (tagsOf options components x).Disjoint (tagsOf options components y) :=
      ⟨fun _ _ hdisjoint => List.disjoint_comm.1 hdisjoint⟩
    exact h.forall (mem_modules.2 ⟨a, ha, rfl⟩) (mem_modules.2 ⟨b, hb, rfl⟩) hne
      (mem_tagsOf.2 ⟨a, ha, rfl, rfl⟩) (mem_tagsOf.2 ⟨b, hb, rfl, htag.symm⟩)
  · intro h
    refine (pairwise_sortedSet _).imp fun hlt tag hx hy => ?_
    obtain ⟨a, ha, rfl, rfl⟩ := mem_tagsOf.1 hx
    obtain ⟨b, hb, rfl, htag⟩ := mem_tagsOf.1 hy
    rw [h a ha b hb htag.symm] at hlt
    exact absurd hlt (String.lt_irrefl _)

theorem exists_import_iff {tag : String} :
    (∃ i ∈ importsOf options components, tag ∈ i.2) ↔ ∃ a ∈ components, a.tag = tag := by
  constructor
  · rintro ⟨i, hi, htag⟩
    obtain ⟨module, -, rfl⟩ := List.mem_map.1 hi
    obtain ⟨a, ha, -, rfl⟩ := mem_tagsOf.1 htag
    exact ⟨a, ha, rfl⟩
  · rintro ⟨a, ha, rfl⟩
    exact ⟨_, List.mem_map_of_mem (mem_modules.2 ⟨a, ha, rfl⟩), mem_tagsOf.2 ⟨a, ha, rfl, rfl⟩⟩

/-- All names that a source file binds: those that it imports and that of the function. -/
def boundNames (imports : List (String × List String)) (name : String) : List String :=
  "React" :: imports.flatMap Prod.snd ++ [name]

/-- No name is bound twice exactly if neither the function nor a tag is called React, no tag is
called like the function, and no tag is imported from two modules. -/
theorem nodup_boundNames_iff :
    (boundNames (importsOf options components) name).Nodup ↔
      name ≠ "React" ∧ (∀ a ∈ components, a.tag ≠ "React" ∧ a.tag ≠ name) ∧
        OneModulePerTag options (· ∈ components) := by
  have hlines : ∀ i ∈ importsOf options components, i.2.Nodup := by
    intro i hi
    obtain ⟨module, -, rfl⟩ := List.mem_map.1 hi
    exact (pairwise_sortedSet _).imp fun hlt heq => absurd (heq ▸ hlt) (String.lt_irrefl _)
  have htags : ((importsOf options components).flatMap Prod.snd).Nodup ↔
      OneModulePerTag options (· ∈ components) := by
    rw [List.nodup_flatMap, ← pairwise_disjoint_iff]
    exact and_iff_right hlines
  have hmem : ∀ tag, tag ∈ (importsOf options components).flatMap Prod.snd ↔
      ∃ a ∈ components, a.tag = tag :=
    fun tag => List.mem_flatMap.trans exists_import_iff
  rw [boundNames, List.cons_append, List.nodup_cons, List.nodup_append, htags, List.mem_append,
    List.mem_singleton, hmem]
  simp only [List.nodup_singleton, List.mem_singleton, hmem, forall_exists_index, and_imp,
    forall_apply_eq_imp_iff₂, forall_eq, not_or, not_exists, not_and, true_and, forall_and]
  constructor
  · rintro ⟨⟨hreact, hname⟩, hmodules, hapart⟩
    exact ⟨Ne.symm hname, ⟨hreact, hapart⟩, hmodules⟩
  · rintro ⟨hname, ⟨hreact, hapart⟩, hmodules⟩
    exact ⟨⟨hreact, Ne.symm hname⟩, hmodules, hapart⟩

/-! ## The head of a source file -/

/-- The names in the head of a source file, given the components of what the page shows. -/
structure Heads (options : Options) (shown : Component → Prop)
    (imports : List (String × List String)) (name : String) : Prop where
  /-- The function is named as a component is. -/
  named : IsComponentName name
  /-- What has been made a component's name is not changed again. -/
  remade : componentName name = name
  /-- The tags imported are those that are shown. -/
  imported_iff : ∀ tag, (∃ i ∈ imports, tag ∈ i.2) ↔ ∃ a, shown a ∧ a.tag = tag
  /-- A tag is imported twice only if it belongs to two modules. -/
  once_iff : imports.Pairwise (fun i j => i.2.Disjoint j.2) ↔ OneModulePerTag options shown
  /-- Names clash so, or if two of React, the function and a tag are called the same. -/
  nodup_iff : (boundNames imports name).Nodup ↔
    name ≠ "React" ∧ (∀ a, shown a → a.tag ≠ "React" ∧ a.tag ≠ name) ∧
      OneModulePerTag options shown

theorem heads_importsOf (hname : IsComponentName name) :
    Heads options (· ∈ components) (importsOf options components) name where
  named := hname
  remade := componentName_eq_self hname
  imported_iff _ := exists_import_iff
  once_iff := pairwise_disjoint_iff
  nodup_iff := nodup_boundNames_iff

/-- The head of every source file that is generated with imports, of any page: the function is named
as a component is, the tags imported are those that the page shows, and names clash as `Heads` says
and in no other way. -/
theorem heads_of_generate {snapshot : Snapshot} {catalog : Catalog} {source : Source}
    (himports : options.imports = true) (h : generate snapshot options catalog = .ok source) :
    ∃ imports body,
      source.text = Text.tidy (assemble (headerOf imports)
        (signature options snapshot.page source.name) body) ∧
      source.name = componentName options.name ∧
      Heads options (fun component => ∃ e, snapshot.page.Shown e ∧
        catalog.orBuiltIn.componentOf e.kind = component) imports source.name := by
  obtain ⟨-, -, h⟩ := exists_of_bind h
  obtain ⟨known, hknown, h⟩ := exists_of_bind h
  obtain ⟨unit, -, h⟩ := exists_of_bind h
  obtain ⟨body, -, h⟩ := exists_of_bind h
  obtain rfl := Except.ok.inj h
  have hshown : (fun component => ∃ e, snapshot.page.Shown e ∧
      catalog.orBuiltIn.componentOf e.kind = component) = (· ∈ known.values) :=
    funext fun component => propext (Markup.mem_values_components hknown).symm
  refine ⟨importsOf options known.values, Text.join "\n" body, ?_, rfl, ?_⟩
  · rw [if_pos himports, importHeader_eq]
  · rw [hshown]
    exact heads_importsOf (isComponentName_componentName _)

/-- A page whose components and lines can be computed is written. -/
theorem exists_generate {page : Page} {catalog : Catalog} {unit : String}
    {components : List Component} (hcatalog : catalog.orBuiltIn = catalog)
    (hdialect : options.checkDialect = .ok ()) (hunit : options.unit = .ok unit)
    (himports : options.imports = true)
    (h : (Markup.components catalog page).toOption.any (fun known =>
      decide (known.values = components) && (bodyLines page known unit).toOption.isSome) = true) :
    ∃ body, generate { page := page } options catalog =
      .ok ⟨Text.tidy (assemble (headerOf (importsOf options components))
        (signature options page (componentName options.name)) body),
        componentName options.name⟩ := by
  obtain ⟨known, hknown, h⟩ := exists_of_any h
  obtain ⟨heq, hbody⟩ := Bool.and_eq_true_iff.1 h
  cases hlines : bodyLines page known unit with
  | error failure => simp [hlines, Except.toOption] at hbody
  | ok body =>
    rw [generate_of_body hcatalog hdialect hunit hknown hlines, if_pos himports, importHeader_eq,
      of_decide_eq_true heq]
    exact ⟨_, rfl⟩

/-- A text and nothing else. -/
def label : Page :=
  { elements := .ofList [("el_1", ⟨"el_1", "text", .empty, .empty, [], none⟩)]
    root := some "el_1" }

/-- The head of the file of a text, under the name that it has by default. -/
theorem heads_of_generate_label :
    ∃ source imports body, generate { page := label } {} .builtIn = .ok source ∧
      source.name = "GeneratedComponent" ∧
      source.text = Text.tidy (assemble (headerOf imports) (signature {} label source.name) body) ∧
      Heads {} (fun component => ∃ e, label.Shown e ∧
        Catalog.builtIn.orBuiltIn.componentOf e.kind = component) imports source.name := by
  obtain ⟨_, hsource⟩ := @exists_generate {} label .builtIn "  "
    [Catalog.builtIn.componentOf "text"] (Catalog.orBuiltIn_eq (by decide)) (by decide)
    (by decide) rfl (by decide +kernel)
  have hname : componentName "GeneratedComponent" = "GeneratedComponent" := by decide +kernel
  obtain ⟨imports, body, htext, -, hheads⟩ := heads_of_generate rfl hsource
  exact ⟨_, imports, body, hsource, hname, htext, hheads⟩

/-- A chart of bars. -/
def bars : Component :=
  { kind := "bars", tag := "Chart", name := "Bars", shelf := "media", module := "@/bars" }

/-- A chart of lines, which has the same tag from another module. -/
def curves : Component :=
  { kind := "lines", tag := "Chart", name := "Lines", shelf := "media", module := "@/lines" }

/-- A chart in a chart. -/
def chart : Page :=
  { elements := .ofList [
      ("el_1", ⟨"el_1", "bars", .empty, .empty, ["el_2"], none⟩),
      ("el_2", ⟨"el_2", "lines", .empty, .empty, [], some "el_1"⟩)]
    root := some "el_1" }

/-- A function that is called as the text inside it is, and charts that are imported twice. -/
theorem heads_of_generate_clashes :
    (∃ body, generate { page := label } { name := "text" } .builtIn =
      .ok ⟨Text.tidy (assemble (headerOf [("@/components/ui", ["Text"])])
        "export default function Text(): React.JSX.Element" body), "Text"⟩) ∧
    ∃ body, generate { page := chart } {} ((Catalog.empty.add bars).add curves) =
      .ok ⟨Text.tidy (assemble (headerOf [("@/bars", ["Chart"]), ("@/lines", ["Chart"])])
        "export default function GeneratedComponent(): React.JSX.Element" body),
        "GeneratedComponent"⟩ := by
  constructor
  · have htext := @exists_generate { name := "text" } label .builtIn "  "
      [Catalog.builtIn.componentOf "text"] (Catalog.orBuiltIn_eq (by decide)) (by decide)
      (by decide) rfl (by decide +kernel)
    have himports : importsOf { name := "text" } [Catalog.builtIn.componentOf "text"] =
        [("@/components/ui", ["Text"])] := by
      decide +kernel
    have hname : componentName "text" = "Text" := by decide +kernel
    rw [himports, hname] at htext
    exact htext
  · have htwice := @exists_generate {} chart ((Catalog.empty.add bars).add curves) "  "
      [bars, curves] (Catalog.orBuiltIn_eq (by decide)) (by decide) (by decide) rfl
      (by decide +kernel)
    have himports : importsOf {} [bars, curves] =
        [("@/bars", ["Chart"]), ("@/lines", ["Chart"])] := by
      have hmodules : modules {} [bars, curves] = ["@/bars", "@/lines"] :=
        sortedSet_eq_self (by decide)
      rw [importsOf, hmodules]
      decide +kernel
    have hname : componentName "GeneratedComponent" = "GeneratedComponent" := by decide +kernel
    rw [himports, hname] at htwice
    exact htwice

end PageBuilder.Source
