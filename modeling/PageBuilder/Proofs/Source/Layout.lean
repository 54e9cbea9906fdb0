import PageBuilder.Proofs.Markup.Layout
import PageBuilder.Proofs.Source.Imports
import PageBuilder.Proofs.Source.Template

/-!
# Where markup stands in a source file

The markup in a source file is the markup that can be copied on its own, with a margin of two levels
before each line.  All around it is fixed but for the name and the imports.  As no line ends in a
blank, the layout pass that a file goes through in the end changes nothing, unless a tag, a module,
a name or an expression brings a line feed in.
-/

namespace PageBuilder.Source

open Results Text

variable {options : Options} {unit : String}

/-! ## The lines around the markup -/

/-- A level is indented by as many blanks as the width says; below zero by none. -/
theorem unit_eq (h : options.unit = .ok unit) :
    unit = String.ofList (List.replicate options.indent.toNat ' ') := by
  unfold Options.unit at h
  split at h
  case isTrue => cases h
  case isFalse => exact (Except.ok.inj h).symm

/-- The margin of two levels. -/
def marginOf (options : Options) : String :=
  String.ofList (List.replicate (2 * options.indent.toNat) ' ')

/-- The markup in a file begins two levels deep. -/
theorem pad_two (h : options.unit = .ok unit) : Markup.pad unit 2 = marginOf options := by
  rw [Markup.pad, Markup.pad, Markup.pad, String.append_empty, unit_eq h, marginOf,
    ← String.ofList_append, List.replicate_append_replicate, Nat.two_mul]

/-- Indentation holds no line feed. -/
theorem not_mem_unit (h : options.unit = .ok unit) : '\n' ∉ unit.toList := by
  rw [unit_eq h, String.toList_ofList]
  intro hm
  exact absurd (List.eq_of_mem_replicate hm) (by decide)

theorem toUpper_ne_newline {c : Char} (h : c ≠ '\n') : c.toUpper ≠ '\n' := by
  have hsmall : ∀ n : Fin 123, Char.ofNat n.val ≠ '\n' → (Char.ofNat n.val).toUpper ≠ '\n' := by
    decide
  by_cases hz : c.toNat < 123
  · have hupper := hsmall ⟨c.toNat, hz⟩
    rw [Char.ofNat_toNat] at hupper
    exact hupper h
  · have hself : c.toUpper = c := dif_neg fun hc => hz (Nat.lt_succ_of_le hc.2)
    rwa [hself]

/-- Nor does the name of the function, as a name has only letters and digits. -/
theorem not_mem_componentName (text : String) : '\n' ∉ (componentName text).toList := by
  have hchars : '\n' ∉ text.toList.filter isNameChar :=
    fun hm => absurd (List.mem_filter.1 hm).2 (by decide)
  unfold componentName
  split
  case h_1 => decide
  case h_2 c rest hcs =>
    rw [hcs] at hchars
    obtain ⟨hfirst, hrest⟩ := List.ne_and_not_mem_of_not_mem_cons hchars
    split
    case isTrue =>
      rw [String.toList_append, String.toList_ofList, List.mem_append, not_or]
      exact ⟨by decide, hchars⟩
    case isFalse =>
      rw [String.toList_ofList, List.mem_cons, not_or]
      exact ⟨(toUpper_ne_newline hfirst.symm).symm, hrest⟩

/-- The lines of imports, with the empty line after them. -/
def headerLines (options : Options) (components : List Component) : List String :=
  "import React from 'react';" ::
    (modules options components).map (importLine options components) ++ [""]

theorem headerLines_ne_nil (options : Options) (components : List Component) :
    headerLines options components ≠ [] :=
  List.cons_ne_nil _ _

/-- The imports as lines. -/
theorem importHeader_eq_join (options : Options) (components : List Component) :
    importHeader options components = Text.join "\n" (headerLines options components) ++ "\n" := by
  rw [importHeader, headerLines, join_append _ (List.cons_ne_nil _ _) (List.cons_ne_nil _ _)]
  simp [Text.join, String.append_assoc]

/-- Their lines end in a quotation mark and a semicolon, or are empty. -/
theorem neat_headerLines {components : List Component}
    (htag : ∀ component ∈ components, '\n' ∉ component.tag.toList)
    (hmodule : ∀ component ∈ components, '\n' ∉ (moduleOf options component).toList) :
    ∀ line ∈ headerLines options components, Neat line.toList := by
  have hline : ∀ module ∈ modules options components,
      Neat (importLine options components module).toList := by
    intro module hm
    obtain ⟨component, hc, rfl⟩ := List.mem_map.1 (mem_sortedSet.1 hm)
    have htags : '\n' ∉
        (Text.join ", " (tagsOf options components (moduleOf options component))).toList := by
      intro hjoin
      obtain hseparator | ⟨tag, htagOf, hjoin⟩ := Text.mem_join hjoin
      · exact absurd hseparator (by decide)
      · obtain ⟨other, hother, rfl⟩ := List.mem_map.1 (mem_sortedSet.1 htagOf)
        exact htag other (List.mem_filter.1 hother).1 hjoin
    exact neat_toList_append (by simp [htags, hmodule component hc]) (by decide) (by decide)
  unfold headerLines
  refine List.forall_mem_append.2 ⟨List.forall_mem_cons.2 ⟨by decide, ?_⟩, by decide⟩
  intro line hm
  obtain ⟨module, hmodule, rfl⟩ := List.mem_map.1 hm
  exact hline module hmodule

/-- The lines of a source file from the exported function on, given those of its markup. -/
def functionLines (options : Options) (unit : String) (markup : List String) : List String :=
  ("export default function " ++ componentName options.name ++
      (if options.dialect = "tsx" then "(): React.JSX.Element" else "()") ++ " \x7b") ::
    (unit ++ "return (") :: markup ++ [unit ++ ");", "\x7d"]

/-- The lines of the function end in brackets, whatever stands between them. -/
theorem neat_functionLines {markup : List String} (hunit : '\n' ∉ unit.toList)
    (hmarkup : ∀ line ∈ markup, Markup.Bracketed line) :
    ∀ line ∈ functionLines options unit markup, Neat line.toList := by
  have hname := not_mem_componentName options.name
  have hmargin : ∀ line ∈ markup, Neat line.toList := by
    intro line hm
    obtain ⟨front, rfl, hfront⟩ := hmarkup line hm
    exact neat_toList_append hfront (by decide) (by decide)
  unfold functionLines
  refine List.forall_mem_cons.2 ⟨?_, List.forall_mem_cons.2 ⟨?_,
    List.forall_mem_append.2 ⟨hmargin, List.forall_mem_cons.2 ⟨?_, by decide⟩⟩⟩⟩
  · refine neat_toList_append ?_ (by decide) (by decide)
    split <;> simp [hname]
  · exact neat_toList_append hunit (by decide) (by decide)
  · exact neat_toList_append hunit (by decide) (by decide)

/-- The file is the imports and these lines. -/
theorem assemble_eq_join {page : Page} (hpage : page.isEmpty = false) (header : String)
    (markup : List String) :
    assemble header (signature options page (componentName options.name))
        (Text.join "\n" ((unit ++ "return (") :: markup ++ [unit ++ ");"])) =
      header ++ Text.join "\n" (functionLines options unit markup) ++ "\n" := by
  have hreturns : "(): " ++ returnType page = "(): React.JSX.Element" := by
    simp [returnType, hpage]
  have hlines : functionLines options unit markup =
      (signature options page (componentName options.name) ++ " \x7b") ::
        ((unit ++ "return (") :: markup ++ [unit ++ ");"]) ++ ["\x7d"] := by
    unfold functionLines signature
    simp only [hreturns, List.cons_append, List.append_assoc, List.nil_append]
  generalize hbody : (unit ++ "return (") :: markup ++ [unit ++ ");"] = body at hlines
  have hne : body ≠ [] := hbody ▸ List.cons_ne_nil _ _
  rw [hlines, join_append _ (List.cons_ne_nil _ _) (List.cons_ne_nil _ _),
    join_cons_of_ne_nil _ _ hne]
  have hopening : " \x7b\n" = " \x7b" ++ "\n" := by decide
  have hclosing : "\n\x7d\n" = "\n" ++ ("\x7d" ++ "\n") := by decide
  unfold assemble
  simp only [Text.join, hopening, hclosing, String.append_assoc]

theorem functionLines_ne_nil (options : Options) (unit : String) (markup : List String) :
    functionLines options unit markup ≠ [] :=
  List.cons_ne_nil _ _

/-- The last line closes the function. -/
theorem getLast?_functionLines (options : Options) (unit : String) (markup : List String) :
    (functionLines options unit markup).getLast? = some "\x7d" := by
  unfold functionLines
  rw [List.getLast?_append]
  rfl

/-- In a file put together from lines in one piece there is nothing to tidy. -/
theorem tidy_eq_self {components : List Component} {markup : List String}
    (hheader : ∀ line ∈ headerLines options components, Neat line.toList)
    (hfunction : ∀ line ∈ functionLines options unit markup, Neat line.toList) :
    let header := if options.imports then importHeader options components else ""
    tidy (header ++ Text.join "\n" (functionLines options unit markup) ++ "\n") =
      header ++ Text.join "\n" (functionLines options unit markup) ++ "\n" := by
  intro header
  have hne := functionLines_ne_nil options unit markup
  have hlast := getLast?_functionLines options unit markup
  cases himports : options.imports with
  | false =>
    have hnone : header = "" := by simp [header, himports]
    rw [hnone, String.empty_append]
    exact tidy_of_neat hne hfunction (by rw [hlast]; decide)
  | true =>
    have hjoin : header ++ Text.join "\n" (functionLines options unit markup) =
        Text.join "\n" (headerLines options components ++ functionLines options unit markup) := by
      rw [join_append _ (headerLines_ne_nil options components) hne, ← importHeader_eq_join]
      simp [header, himports]
    rw [hjoin]
    refine tidy_of_neat (List.append_ne_nil_of_right_ne_nil _ hne)
      (List.forall_mem_append.2 ⟨hheader, hfunction⟩) ?_
    rw [List.getLast?_append, hlast, Option.some_or]
    decide

/-! ## The markup and the file around it -/

/-- The lines of the markup in a source file are those of the markup on its own, each with a margin
of two levels, and they are there if every value that stands in them has a text.  If then no tag,
module, name of a prop or bound expression holds a line feed, the source file consists of the
imports, if they are wanted, and these lines with the exported function around them, and of nothing
else; and so does the file that any renderer makes of the template. -/
theorem source_around_markup {render : Renderer} (hrender : FillsIn render)
    {checker catalog : Catalog} {snapshot : Snapshot} {root : String}
    (hroot : snapshot.page.root = some root) (hp : snapshot.page.problems checker false = [])
    (hkinds : ∀ {id e}, snapshot.page.get? id = some e → catalog.contains e.kind = true)
    (hdialect : Failure.dialectNames.contains options.dialect = true)
    (hunit : options.unit = .ok unit) :
    ∃ known, Markup.components catalog snapshot.page = .ok known ∧
      Markup.linesFrom snapshot.page known unit 2 root =
        List.map (marginOf options ++ ·) <$> Markup.linesFrom snapshot.page known unit 0 root ∧
      (snapshot.page.HasTexts → ∃ lines,
        Markup.linesFrom snapshot.page known unit 0 root = .ok lines ∧
        generateMarkup snapshot options catalog = .ok (tidy (Text.join "\n" lines)) ∧
        ((∀ {id e}, snapshot.page.get? id = some e →
            Markup.Unbroken (catalog.componentOf e.kind) e ∧
              '\n' ∉ (moduleOf options (catalog.componentOf e.kind)).toList) →
          let header := if options.imports then importHeader options known.values else ""
          let text := header ++ Text.join "\n"
            (functionLines options unit (lines.map (marginOf options ++ ·))) ++ "\n"
          generate snapshot options catalog = .ok ⟨text, componentName options.name⟩ ∧
            generateThrough render snapshot options catalog =
              .ok ⟨text, componentName options.name⟩)) := by
  have hl := (Page.problems_eq_nil_iff.1 hp).1.linked
  obtain ⟨known, hknown, hget, hwritten⟩ := Markup.exists_markup hl hkinds
  have hdeeper := Markup.linesFrom_deeper snapshot.page known unit root 2
  rw [pad_two hunit] at hdeeper
  refine ⟨known, hknown, hdeeper, fun htexts => ?_⟩
  obtain ⟨lines, hlines⟩ := hwritten hroot htexts unit
  have hinner := hdeeper
  rw [hlines, map_ok] at hinner
  -- The kind of the root is known, so the catalog is not empty and stands for itself.
  have hself : catalog.orBuiltIn = catalog := by
    obtain ⟨e, he, -⟩ := hl.root_stored hroot
    exact Catalog.orBuiltIn_of_get? (Catalog.get?_of_contains (hkinds he))
  refine ⟨lines, hlines, ?_, ?_⟩
  · rw [generateMarkup, hself, hknown, ok_bind, hroot]
    simp only [hunit, hlines, ok_bind]
    rfl
  · intro hpieces header text
    -- Every component that is written is that of an element of the page.
    have hcomponents : ∀ component ∈ known.values, '\n' ∉ component.tag.toList ∧
        '\n' ∉ (moduleOf options component).toList := by
      intro component hm
      obtain ⟨e, ⟨_, _, _, _, he⟩, rfl⟩ := (Markup.mem_values_components hknown).1 hm
      exact ⟨(hpieces he).1.tag, (hpieces he).2⟩
    have hheader := @neat_headerLines options known.values
      (fun component hm => (hcomponents component hm).1)
      (fun component hm => (hcomponents component hm).2)
    have hbracketed : ∀ line ∈ lines.map (marginOf options ++ ·), Markup.Bracketed line := by
      refine Markup.bracketed_lines (not_mem_unit hunit) ?_ ?_ hinner
      · intro id e component he hkind
        cases (hget he).symm.trans hkind
        exact (hpieces he).1
      · intro tag depth hm
        cases List.mem_singleton.1 hm
    have htidy := @tidy_eq_self options unit known.values _ hheader
      (neat_functionLines (not_mem_unit hunit) hbracketed)
    have hgenerate : generate snapshot options catalog =
        .ok ⟨text, componentName options.name⟩ := by
      have hbody : bodyLines snapshot.page known unit =
          .ok ((unit ++ "return (") :: lines.map (marginOf options ++ ·) ++ [unit ++ ");"]) := by
        rw [bodyLines, hroot]
        simp only [hinner, map_ok]
      have hpage : snapshot.page.isEmpty = false := by
        rw [Page.isEmpty, hroot]
        rfl
      rw [generate_of_body hself (if_pos hdialect) hunit hknown hbody, assemble_eq_join hpage,
        htidy]
    exact ⟨hgenerate, (generateThrough_eq hrender _ _ _).trans hgenerate⟩

/-- A text that reads like a tag of the template, on two lines. -/
def braces : Page :=
  { elements := .ofList [
      ("el_1", ⟨"el_1", "text", .ofList [("text", .str "\x7b\x7b\x7bbody\x7d\x7d\x7d\n")], .empty,
        [], none⟩)]
    root := some "el_1" }

theorem unbroken_braces {id : String} {e : Element} (h : braces.get? id = some e) :
    Markup.Unbroken (Catalog.builtIn.componentOf e.kind) e ∧
      '\n' ∉ (moduleOf {} (Catalog.builtIn.componentOf e.kind)).toList := by
  have hm := (braces.elements.mem_entries_iff id e).2 h
  cases List.mem_singleton.1 hm
  refine ⟨⟨by decide +kernel, by decide, ?_⟩, by decide +kernel⟩
  intro name expression hget
  have hentry := (OrderedMap.mem_entries_iff _ _ _).2 hget
  cases List.mem_singleton.1 hentry

/-- The text is written as a literal on one line, and the template does not touch it. -/
theorem source_around_markup_braces :
    let text := Text.join "\n" ["import React from 'react';",
      "import \x7b Text \x7d from '@/components/ui';", "",
      "export default function GeneratedComponent(): React.JSX.Element \x7b", "  return (",
      "    <Text text=\x7b\"\x7b\x7b\x7bbody\x7d\x7d\x7d\\n\"\x7d />", "  );", "\x7d", ""]
    generate { page := braces } {} .builtIn = .ok ⟨text, "GeneratedComponent"⟩ ∧
      generateThrough fillTags { page := braces } {} .builtIn =
        .ok ⟨text, "GeneratedComponent"⟩ := by
  intro text
  have hkinds : ∀ p ∈ braces.elements.entries, Catalog.builtIn.contains p.2.kind = true := by
    decide +kernel
  have hproblems : braces.problems .builtIn false = [] := by decide +kernel
  obtain ⟨known, hknown, -, hwritten⟩ :=
    @source_around_markup {} "  " fillTags fillsIn_fillTags .builtIn .builtIn { page := braces }
      "el_1" rfl hproblems
      (fun {id e} he => hkinds (id, e) ((OrderedMap.mem_entries_iff _ _ _).2 he))
      (by decide) (by decide)
  obtain ⟨lines, hlines, -, hframed⟩ := hwritten (by decide +kernel)
  have hfound : (Markup.components .builtIn braces).toOption.any (fun known =>
      decide (importHeader {} known.values =
        "import React from 'react';\nimport \x7b Text \x7d from '@/components/ui';\n\n") &&
      (Markup.linesFrom braces known "  " 0 "el_1").toOption.any fun lines =>
        lines = ["<Text text=\x7b\"\x7b\x7b\x7bbody\x7d\x7d\x7d\\n\"\x7d />"]) = true := by
    decide +kernel
  obtain ⟨found, hfound, hwritten⟩ := exists_of_any hfound
  cases hknown.symm.trans hfound
  obtain ⟨hheader, hwritten⟩ := Bool.and_eq_true_iff.1 hwritten
  obtain ⟨markup, hmarkup, hwritten⟩ := exists_of_any hwritten
  cases hlines.symm.trans hmarkup
  obtain rfl := of_decide_eq_true hwritten
  have htext : importHeader {} known.values ++ Text.join "\n" (functionLines {} "  "
      (["<Text text=\x7b\"\x7b\x7b\x7bbody\x7d\x7d\x7d\\n\"\x7d />"].map (marginOf {} ++ ·))) ++
        "\n" = text := by
    rw [of_decide_eq_true hheader]
    decide +kernel
  rw [← htext]
  exact hframed unbroken_braces

/-- A title that cannot be written, and a width that stands for no indentation but is no 64-bit
number: in the one case there is no markup, in the other no file. -/
theorem source_around_markup_overlong :
    Markup.overlongPage.problems .builtIn true = [] ∧
    generateMarkup { page := Markup.overlongPage } {} .builtIn = .error (.noText .longInteger) ∧
    generate { page := Markup.overlongPage } { indent := -(2 ^ 63) - 1 } .builtIn =
      .error .indentTooWide := by
  obtain ⟨known, hknown, hlines⟩ := Markup.lines_overlongPage
  obtain ⟨-, hmarkup⟩ := @generate_of_fault .builtIn { page := Markup.overlongPage } {} "  " known _
    "a" (Catalog.orBuiltIn_eq (by decide)) (by decide) (by decide) hknown rfl (hlines "  ")
  exact ⟨Markup.overlongPage_problems, hmarkup, by decide +kernel⟩

end PageBuilder.Source
