import PageBuilder.Proofs.Archive.Gate
import PageBuilder.Proofs.Source.Imports
import PageBuilder.Proofs.Source.Template
import PageBuilder.Proofs.Text.Settled

/-!
# Where bound expressions are written

A bound expression is put between the braces of its attribute as it is.  The layout pass that comes
last does not know where expressions begin and end, and takes away the blanks before their line
feeds as it does everywhere.  It takes away nothing else of them, since a name and a closing brace
stand around each: what is left in the opening tag of the element is the expression without blanks
before line feeds (`Written`), and the expression itself exactly if it has none.
-/

namespace PageBuilder

open Results Text

/-! ## Attributes -/

namespace Markup

variable {component : Component} {e : Element} {name content : String} {expression : Value}

theorem begins_name (h : Props.isName name = true) : Begins name.toList := by
  obtain ⟨base, hbase, hname⟩ := Props.isName_iff.1 h
  obtain ⟨c, rest, hchars, -⟩ := id hbase
  refine ⟨c, ?_, Props.isBlank_of_isNameChar (hbase.isNameChar (by simp [hchars]))⟩
  rcases hname with rfl | rfl <;> simp [hchars]

/-- Up to its expression an attribute is left alone, also if its name ends in a line feed. -/
theorem settle_name (h : Props.isName name = true) :
    settle (name ++ "=\x7b") = name ++ "=\x7b" := by
  obtain ⟨base, hbase, hname⟩ := Props.isName_iff.1 h
  have hchars : ∀ c ∈ base.toList, isBlank c = false :=
    fun c hc => Props.isBlank_of_isNameChar (hbase.isNameChar hc)
  have hline : '\n' ∉ base.toList := fun hm => absurd (hchars _ hm) (by decide)
  rw [settle_eq_self_iff]
  rcases hname with rfl | rfl
  · exact firm_line (by simp [hline])
  · have hsplit : (base ++ "\n" ++ "=\x7b").toList = base.toList ++ '\n' :: ['=', '\x7b'] := by
      simp
    rw [hsplit, firm_more_iff hline]
    exact ⟨fun c hc => hchars c (List.mem_of_getLast? hc), firm_line (by decide)⟩

theorem begins_braced (h : Props.isName name = true) (content : String) :
    Begins (braced name content).toList := by
  rw [braced, String.append_assoc, String.append_assoc, String.toList_append]
  exact (begins_name h).append _

theorem ends_braced (name content : String) : Ends (braced name content).toList := by
  rw [braced, String.toList_append]
  exact Ends.append ⟨'\x7d', by decide, by decide⟩ _

theorem settle_braced (h : Props.isName name = true) (content : String) :
    settle (braced name content) = braced name (settle content) := by
  have hopen : Ends (name ++ "=\x7b").toList := by
    rw [String.toList_append]
    exact Ends.append ⟨'\x7b', by decide, by decide⟩ _
  have hclose : Begins "\x7d".toList := ⟨'\x7d', by decide, by decide⟩
  rw [braced, settle_append (hclose.meet _), settle_append (hopen.meet _), settle_name h]
  rfl

/-- An attribute stands as it is in no text whose lines never end in blanks, if one of its own
does. -/
theorem not_infix_of_firm {text : List Char} (h : Firm text) (hcontent : ¬ Firm content.toList) :
    ¬ (braced name content).toList <:+: text := by
  intro hinfix
  have hwhole : (braced name content).toList =
      (name ++ "=\x7b").toList ++ content.toList ++ "\x7d".toList := by
    rw [braced, String.toList_append, String.toList_append]
  refine hcontent ((h.within hinfix).within ?_)
  rw [hwhole]
  exact List.infix_append _ _ _

/-- The head of a tag around the attribute of a bound prop. -/
theorem exists_head_eq (h : e.props.get? name = some (.binding expression)) :
    ∃ ahead behind, Tag.head component e = ahead ++ braced name expression.text ++ behind := by
  have hm : name ∈ attributeOrder e.props component.props :=
    (attributeOrder_perm _ _).mem_iff.2 ((e.props.mem_keys_iff name).2 ⟨_, h⟩)
  obtain ⟨before, after, horder⟩ := List.append_of_mem hm
  have hattribute : attributeText name ((e.props.get? name).getD .null) =
      braced name expression.text := by
    rw [h, Option.getD_some, attributeText]
  rw [Tag.head, horder, List.map_append, List.map_cons, String.join_append, String.join_cons,
    hattribute]
  generalize before.map _ = before, after.map _ = after,
    (if Style.classText e.style = "" then "" else _) = classes
  exact ⟨component.tag ++ String.join before ++ " ", String.join after ++ classes,
    by simp only [String.append_assoc]⟩

end Markup

/-- The tag that begins an element, between its brackets. -/
theorem Tag.exists_line {tag : Tag} {e : Element} (h : tag.beginning = some e)
    (find : String → Component) (unit : String) :
    ∃ depth closing, (closing = " />" ∨ closing = ">") ∧
      tag.line find unit = margin unit depth ++ ("<" ++ head (find e.kind) e ++ closing) := by
  cases tag with
  | alone f depth =>
    cases h
    exact ⟨depth, " />", Or.inl rfl, by simp only [line, String.append_assoc]⟩
  | opens f depth =>
    cases h
    exact ⟨depth, ">", Or.inr rfl, by simp only [line, String.append_assoc]⟩
  | closes => cases h

/-! ## Texts with lines of markup -/

section Texts

variable {find : String → Component} {unit : String} {e : Element} {name : String}
  {expression : Value} {tags : List Tag}

/-- A bound expression as it stands in a text that is made of lines of markup with a front and a
foot: in the opening tag of its element, behind the name of the prop.  The blanks before line feeds
are gone from the expression, as they are from the tag and from all that stands before it. -/
def Written (find : String → Component) (unit : String) (e : Element) (name expression : String)
    (front : String) (tags : List Tag) (foot text : String) : Prop :=
  ∃ before tag after depth ahead behind closing,
    tags = before ++ tag :: after ∧ tag.beginning = some e ∧
    (closing = " />" ∨ closing = ">") ∧
    tag.line find unit = Tag.margin unit depth ++
      ("<" ++ ahead ++ Markup.braced name expression ++ behind ++ closing) ∧
    text =
      settle (front ++ join "\n" (before.map (Tag.line find unit) ++ [Tag.margin unit depth])) ++
      ("<" ++ settle ahead ++ Markup.braced name (settle expression) ++
        settle (behind ++ closing)) ++
      tidy (join "\n" ("" :: after.map (Tag.line find unit)) ++ foot)

theorem join_around (s t : String) (before after : List String) :
    join "\n" (before ++ (s ++ t) :: after) =
      join "\n" (before ++ [s]) ++ t ++ join "\n" ("" :: after) := by
  induction before with
  | nil =>
    cases after with
    | nil => simp [join]
    | cons line rest => simp [join, String.append_assoc]
  | cons line rest ih =>
    rw [List.cons_append, List.cons_append, join_cons_of_ne_nil _ line (by simp), ih,
      join_cons_of_ne_nil _ line (by simp)]
    simp only [String.append_assoc]

theorem written_tidy {tag : Tag} (htag : tag ∈ tags) (hbeginning : tag.beginning = some e)
    (hname : Props.isName name = true) (h : e.props.get? name = some (.binding expression))
    (front foot : String) :
    Written find unit e name expression.text front tags foot
      (tidy (front ++ join "\n" (tags.map (Tag.line find unit)) ++ foot)) := by
  obtain ⟨before, after, rfl⟩ := List.append_of_mem htag
  obtain ⟨depth, closing, hclosing, hline⟩ := Tag.exists_line hbeginning find unit
  obtain ⟨ahead, behind, hhead⟩ := @Markup.exists_head_eq (find e.kind) e name expression h
  have hopen : "<" ++ Tag.head (find e.kind) e ++ closing =
      "<" ++ ahead ++ (Markup.braced name expression.text ++ (behind ++ closing)) := by
    rw [hhead]
    simp only [String.append_assoc]
  -- The braces and the name are not blank, so what is tidied inside them stays apart from the rest.
  have hsettle : settle ("<" ++ Tag.head (find e.kind) e ++ closing) =
      "<" ++ settle ahead ++ Markup.braced name (settle expression.text) ++
        settle (behind ++ closing) := by
    have hbracket : settle ("<" ++ ahead) = "<" ++ settle ahead :=
      settle_append (Ends.meet ⟨'<', by decide, by decide⟩ _)
    have hrest : Begins
        (Markup.braced name expression.text ++ (behind ++ closing)).toList := by
      rw [String.toList_append]
      exact (Markup.begins_braced hname _).append _
    rw [hopen, settle_append (hrest.meet _), settle_append ((Markup.ends_braced name _).meet _),
      hbracket, Markup.settle_braced hname, ← String.append_assoc]
  have htext : front ++ join "\n" ((before ++ tag :: after).map (Tag.line find unit)) ++ foot =
      (front ++ join "\n" (before.map (Tag.line find unit) ++ [Tag.margin unit depth])) ++
        ("<" ++ Tag.head (find e.kind) e ++ closing) ++
        (join "\n" ("" :: after.map (Tag.line find unit)) ++ foot) := by
    rw [List.map_append, List.map_cons, hline, join_around]
    simp only [String.append_assoc]
  -- So is the whole tag, which begins and ends with a bracket.
  have hbegins : Begins ("<" ++ Tag.head (find e.kind) e ++ closing).toList := by
    rw [String.append_assoc, String.toList_append]
    exact Begins.append ⟨'<', by decide, by decide⟩ _
  have hends : Ends ("<" ++ Tag.head (find e.kind) e ++ closing).toList := by
    rw [String.toList_append]
    refine Ends.append ⟨'>', ?_, by decide⟩ _
    rcases hclosing with rfl | rfl <;> decide
  refine ⟨before, tag, after, depth, ahead, behind, closing, rfl, hbeginning, hclosing, ?_, ?_⟩
  · rw [hline, hopen]
    simp only [String.append_assoc]
  · rw [htext, tidy_part hbegins hends, hsettle]

end Texts

/-! ## Generated code -/

namespace Source

variable {options : Options} {unit : String}

/-- What stands before the markup in a source file. -/
def frontOf (options : Options) (page : Page) (components : List Component) (unit : String) :
    String :=
  (if options.imports then importHeader options components else "") ++
    signature options page (componentName options.name) ++ " \x7b\n" ++ unit ++ "return (\n"

/-- What stands behind the markup in a source file. -/
def footOf (unit : String) : String :=
  "\n" ++ unit ++ ");\n\x7d\n"

theorem assemble_eq_around {page : Page} {components : List Component} {lines : List String}
    (h : lines ≠ []) :
    assemble (if options.imports then importHeader options components else "")
        (signature options page (componentName options.name))
        (join "\n" ((unit ++ "return (") :: lines ++ [unit ++ ");"])) =
      frontOf options page components unit ++ join "\n" lines ++ footOf unit := by
  have hopening : "return (\n" = "return (" ++ "\n" := by decide
  have hclosing : ");\n\x7d\n" = ");" ++ "\n\x7d\n" := by decide
  rw [List.cons_append, join_cons_of_ne_nil _ _ (by simp), join_append _ h (List.cons_ne_nil _ _)]
  simp only [assemble, frontOf, footOf, join, hopening, hclosing, String.append_assoc]

section Documents

variable {checker catalog : Catalog} {snapshot : Snapshot}

/-- No line of a source file ends in a blank. -/
theorem firm_of_generate {source : Source} (h : generate snapshot options catalog = .ok source) :
    Firm source.text.toList := by
  obtain ⟨-, -, h⟩ := exists_of_bind h
  obtain ⟨known, -, h⟩ := exists_of_bind h
  obtain ⟨unit, -, h⟩ := exists_of_bind h
  obtain ⟨body, -, h⟩ := exists_of_bind h
  obtain rfl := Except.ok.inj h
  exact firm_tidy _

/-- No line of markup ends in a blank. -/
theorem firm_of_generateMarkup {markup : String}
    (h : generateMarkup snapshot options catalog = .ok markup) : Firm markup.toList := by
  obtain ⟨known, -, h⟩ := exists_of_bind h
  split at h
  · obtain rfl := Except.ok.inj h
    exact firm_line (by decide)
  · obtain ⟨unit, -, h⟩ := exists_of_bind h
    obtain ⟨lines, -, h⟩ := exists_of_bind h
    obtain rfl := Except.ok.inj h
    exact firm_tidy _

/-- What is generated of a tree of known kinds whose values have texts, in terms of the tags of its
outline. -/
theorem generate_eq_tidy (hl : snapshot.page.Linked) (htexts : snapshot.page.HasTexts)
    {o : Outline} (hd : o.DrawnFrom snapshot.page) (hroot : snapshot.page.root = some o.top.id)
    (hkinds : ∀ {id e}, snapshot.page.get? id = some e → catalog.contains e.kind = true)
    (hdialect : Failure.dialectNames.contains options.dialect = true)
    (hunit : options.unit = .ok unit) :
    ∃ known, Markup.components catalog snapshot.page = .ok known ∧
      generateMarkup snapshot options catalog =
        .ok (tidy (join "\n" ((o.tags 0).map (Tag.line catalog.componentOf unit)))) ∧
      generate snapshot options catalog =
        .ok ⟨tidy (frontOf options snapshot.page known.values unit ++
          join "\n" ((o.tags 2).map (Tag.line catalog.componentOf unit)) ++ footOf unit),
          componentName options.name⟩ := by
  obtain ⟨known, hknown, hget⟩ := Markup.components_eq hl hd hroot fun e hm =>
    hkinds (Outline.drawn_of_mem_preorder hl hd hm).1
  -- The outline shows elements of the page only, and their values have texts.
  have hfault : Markup.firstFault? catalog.componentOf o.preorder = none :=
    Markup.firstFault?_eq_none_iff.2 fun _ hm =>
      htexts _ _ (Outline.drawn_of_mem_preorder hl hd hm).1
  have hlines : ∀ depth, Markup.linesFrom snapshot.page known unit depth o.top.id =
      .ok ((o.tags depth).map (Tag.line catalog.componentOf unit)) := by
    intro depth
    rw [Markup.linesFrom_eq hl hd hget depth, hfault, Markup.unlessFault_none]
  have hself : catalog.orBuiltIn = catalog :=
    Catalog.orBuiltIn_of_get? (Catalog.get?_of_contains (hkinds hd.get?_top))
  refine ⟨known, hknown, ?_, ?_⟩
  · rw [generateMarkup, hself, hknown, ok_bind, hroot]
    simp only [hunit, hlines, ok_bind]
    rfl
  · have hbody : bodyLines snapshot.page known unit = .ok ((unit ++ "return (") ::
        (o.tags 2).map (Tag.line catalog.componentOf unit) ++ [unit ++ ");"]) := by
      rw [bodyLines, hroot]
      simp only [hlines, map_ok]
    have hne : (o.tags 2).map (Tag.line catalog.componentOf unit) ≠ [] := by
      simpa using o.tags_ne_nil 2
    rw [generate_of_body hself (if_pos hdialect) hunit hknown hbody, assemble_eq_around hne]

/-- Of every document that is read, over known kinds and in a known dialect, both texts are
generated, the source file also by any renderer of the template, and both hold each bound
expression in the opening tag of its element: without the blanks that stand before its line feeds,
so as it is stored exactly if there are none. -/
theorem expressions_written {document : String}
    (hread : Archive.read document checker = .ok snapshot)
    (hkinds : ∀ {id e}, snapshot.page.get? id = some e → catalog.contains e.kind = true)
    (hdialect : Failure.dialectNames.contains options.dialect = true)
    (hunit : options.unit = .ok unit) {id name : String} {e : Element} {expression : Value}
    (he : snapshot.page.get? id = some e)
    (hbound : e.props.get? name = some (.binding expression)) :
    ∃ (x : String) (o : Outline) (known : OrderedMap Component) (markup : String) (source : Source),
      expression = .str x ∧ o.DrawnFrom snapshot.page ∧ snapshot.page.root = some o.top.id ∧
      Markup.components catalog snapshot.page = .ok known ∧
      generateMarkup snapshot options catalog = .ok markup ∧
      generate snapshot options catalog = .ok source ∧
      (∀ {render}, FillsIn render →
        generateThrough render snapshot options catalog = .ok source) ∧
      Written catalog.componentOf unit e name x "" (o.tags 0) "" markup ∧
      Written catalog.componentOf unit e name x (frontOf options snapshot.page known.values unit)
        (o.tags 2) (footOf unit) source.text ∧
      (settle x = x ↔ Firm x.toList) ∧
      (¬ Firm x.toList → ¬ (Markup.braced name x).toList <:+: markup.toList ∧
        ¬ (Markup.braced name x).toList <:+: source.text.toList) := by
  obtain ⟨hvalid, hwritable⟩ := Archive.valid_of_read hread
  have htexts := (Archive.hasTexts_iff_writable hvalid).2 hwritable
  have hk : snapshot.page.Keyed := hvalid.keyed
  have hl := (Page.problems_eq_nil_iff.1 hvalid.consistent).1.linked
  have hsaveable := hvalid.saveable _ ((OrderedMap.mem_entries_iff _ _ _).2 he)
  obtain ⟨⟨hname, -⟩, hvalue⟩ := Props.check_eq_ok_iff.1 hsaveable.props_checked _
    ((OrderedMap.mem_entries_iff _ _ _).2 hbound)
  -- What has been read has passed the checks, and they let nothing but a text be bound.
  obtain ⟨x, rfl⟩ : ∃ x, expression = .str x := by
    rcases hvalue with hnull | hassignable
    · cases hnull
    · cases hassignable with
      | binding => exact ⟨_, rfl⟩
  obtain ⟨root, -, hroot, -, -⟩ := hl.shown he
  obtain ⟨o, hd, rfl, -⟩ := Markup.exists_outline_of_root hl hk hroot
  have hm : e ∈ o.preorder := by
    have hid : e.id = id := hk he
    exact (Outline.perm_preorder hl hk hd hroot).mem_iff.2 (hk.mem_values_iff.2 (hid ▸ he))
  have htag : ∀ depth, ∃ tag ∈ o.tags depth, tag.beginning = some e := by
    intro depth
    rw [← Outline.filterMap_tags o depth] at hm
    exact List.mem_filterMap.1 hm
  obtain ⟨known, hknown, hmarkup, hsource⟩ :=
    generate_eq_tidy hl htexts hd hroot hkinds hdialect hunit
  obtain ⟨outer, houter, houterBegins⟩ := htag 0
  obtain ⟨inner, hinner, hinnerBegins⟩ := htag 2
  refine ⟨x, o, known, _, _, rfl, hd, hroot, hknown, hmarkup, hsource,
    fun hrender => (generateThrough_eq hrender _ _ _).trans hsource, ?_,
    written_tidy hinner hinnerBegins hname hbound _ _, settle_eq_self_iff, fun hloose =>
      ⟨Markup.not_infix_of_firm (firm_of_generateMarkup hmarkup) hloose,
        Markup.not_infix_of_firm (firm_of_generate hsource) hloose⟩⟩
  have hwritten := @written_tidy catalog.componentOf unit e name _ _ _ houter houterBegins hname
    hbound "" ""
  rwa [String.empty_append, String.append_empty] at hwritten

/-- A text with an expression on two lines, the first of which ends in a blank. -/
def bound : Element :=
  ⟨"a", "text", .ofList [("title", .binding (.str "x \ny"))], .empty, [], none⟩

/-- A document that holds this text and nothing else. -/
def boundText : String :=
  "\x7b\"root\":\"a\",\"elements\":\x7b\"a\":\x7b\"kind\":\"text\",\"props\":" ++
    "\x7b\"title\":\x7b\"$bind\":\"x \\ny\"\x7d\x7d\x7d\x7d\x7d"

/-- The expression in the texts that are generated of this document. -/
theorem expressions_written_bound :
    ∃ (snapshot : Snapshot) (o : Outline) (known : OrderedMap Component) (markup : String)
      (source : Source),
      Archive.read boundText .builtIn = .ok snapshot ∧
      generateMarkup snapshot {} .builtIn = .ok markup ∧
      generate snapshot {} .builtIn = .ok source ∧
      Written Catalog.builtIn.componentOf "  " bound "title" "x \ny" "" (o.tags 0) "" markup ∧
      Written Catalog.builtIn.componentOf "  " bound "title" "x \ny"
        (frontOf {} snapshot.page known.values "  ") (o.tags 2) (footOf "  ")
        source.text := by
  have hread : (Archive.read boundText .builtIn).toOption.any (fun snapshot =>
      snapshot.page = ⟨.ofList [("a", bound)], some "a"⟩) = true := by
    decide +kernel
  obtain ⟨snapshot, hread, hpage⟩ := exists_of_any hread
  have hpage := of_decide_eq_true hpage
  have hkinds : ∀ {id e}, snapshot.page.get? id = some e →
      Catalog.builtIn.contains e.kind = true := by
    intro id e he
    rw [hpage] at he
    have hm := (OrderedMap.mem_entries_iff _ _ _).2 he
    cases List.mem_singleton.1 hm
    decide
  obtain ⟨x, o, known, markup, source, hx, -, -, -, hmarkup, hsource, -, houter, hinner, -⟩ :=
    @expressions_written {} "  " .builtIn .builtIn snapshot boundText hread hkinds (by decide)
      (by decide) "a" "title" bound (.str "x \ny") (by rw [hpage]; rfl) rfl
  cases hx
  exact ⟨snapshot, o, known, markup, source, hread, hmarkup, hsource, houter, hinner⟩

/-- The blank at the end of the first line is gone. -/
theorem expressions_written_trimmed :
    ∃ snapshot source, Archive.read boundText .builtIn = .ok snapshot ∧
      snapshot.page.get? "a" = some bound ∧
      generateMarkup snapshot {} .builtIn = .ok "<Text title=\x7bx\ny\x7d />\n" ∧
      generate snapshot {} .builtIn = .ok source ∧
      ¬ (Markup.braced "title" "x \ny").toList <:+: source.text.toList := by
  have hread : (Archive.read boundText .builtIn).toOption.any (fun snapshot =>
      decide (snapshot.page.get? "a" = some bound) &&
        decide (generateMarkup snapshot {} .builtIn = .ok "<Text title=\x7bx\ny\x7d />\n") &&
        (generate snapshot {} .builtIn).toOption.any fun source =>
          decide (source.name = "GeneratedComponent")) = true := by
    decide +kernel
  obtain ⟨snapshot, hread, h⟩ := exists_of_any hread
  obtain ⟨h, hgenerate⟩ := Bool.and_eq_true_iff.1 h
  obtain ⟨hstored, hmarkup⟩ := Bool.and_eq_true_iff.1 h
  obtain ⟨source, hsource, -⟩ := exists_of_any hgenerate
  have hloose : ¬ Firm "x \ny".toList :=
    fun h => absurd (h ['x'] ' ' ['y'] rfl rfl) (by decide)
  exact ⟨snapshot, source, hread, of_decide_eq_true hstored, of_decide_eq_true hmarkup, hsource,
    Markup.not_infix_of_firm (firm_of_generate hsource) hloose⟩

end Documents

end Source

end PageBuilder
