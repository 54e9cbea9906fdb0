import PageBuilder.Proofs.Markup.Attributes
import PageBuilder.Proofs.Session.Elements
import PageBuilder.Proofs.Session.Loading
import PageBuilder.Proofs.Session.Saving

/-!
# The class name comes from the style

Edits, loads and documents check the name of every prop, so the props of every element that a
session with the built-in catalog ever holds have passed (`reached_holding`).  That is not quite
enough for what is written: a name may pass with a line feed behind it, and is read without.  For
elements without such names the attributes of their opening tags are told apart by their names, and
none of them but the one written for the style is read as a class name.
-/

namespace PageBuilder

open Results

/-! ## Elements whose props have been checked -/

/-- The props of an element pass the check of props. -/
def Element.Checked (e : Element) : Prop :=
  Props.check e.props = .ok ()

/-- What elements of a catalog start with passes the check of props. -/
def Catalog.DefaultsChecked (catalog : Catalog) : Prop :=
  ∀ kind component, catalog.get? kind = some component → Props.check component.props = .ok ()

theorem Catalog.DefaultsChecked.kept {catalog : Catalog} (h : catalog.DefaultsChecked) :
    Element.Kept catalog Element.Checked where
  relinked he _ hprops _ := by
    rw [Element.Checked, hprops]
    exact he
  props he hchecked := Props.check_overlay he hchecked
  style he _ := he
  inserted _ hcomponent hchecked _ := Props.check_overlay (h _ _ hcomponent) hchecked

theorem Catalog.Fit.defaultsChecked {catalog : Catalog} (h : catalog.Fit) :
    catalog.DefaultsChecked :=
  fun _ _ hc => (h.of_get? hc).2.1.checked

theorem Props.named_of_check {props : OrderedMap Value} (h : Props.check props = .ok ())
    {name : String} (hm : name ∈ props.keys) : Nameable name := by
  obtain ⟨p, hp, rfl⟩ := List.mem_map.1 hm
  exact (check_eq_ok_iff.1 h p hp).1

/-! ## Pages -/

/-- In whatever way elements of a page are written, the attributes of every opening tag are apart,
if no prop of the element has a name with a line feed. -/
def Page.WritesApart (page : Page) : Prop :=
  ∀ {known unit agenda written}, Markup.lines page known unit agenda = .ok written →
    ∀ line ∈ written, Markup.Closes unit line ∨
      ∃ id e component, page.get? id = some e ∧ known.get? e.kind = some component ∧
        Markup.Opens unit component e line ∧
        ((∀ name ∈ e.props.keys, '\n' ∉ name.toList) → Markup.Apart component e)

theorem Page.Every.writesApart {page : Page} (h : page.Every Element.Checked) :
    page.WritesApart := by
  intro known unit agenda written hlines line hm
  refine (Markup.lines_cases hlines hm).imp_right ?_
  rintro ⟨id, e, component, he, hc, hopens⟩
  refine ⟨id, e, component, he, hc, hopens, fun hnames => ?_⟩
  apply Markup.apart_of_names
  intro name hname
  obtain ⟨hform, hfree⟩ := Props.named_of_check (h id e he) hname
  obtain ⟨base, hbase, rfl | rfl⟩ := Props.isName_iff.1 hform
  · exact ⟨hbase, hfree⟩
  · exact absurd (by simp) (hnames _ hname)

theorem every_checked_of_read {text : String} {catalog : Catalog} {snapshot : Snapshot}
    (h : Archive.read text catalog = .ok snapshot) : snapshot.page.Every Element.Checked :=
  fun _ _ he => ((Archive.valid_of_read h).1.page.saveable he).props_checked

namespace Session

theorem every_checked_of_checkLoad {catalog : Catalog} {snapshot : Snapshot}
    (h : checkLoad catalog snapshot = .ok ()) : snapshot.page.Every Element.Checked :=
  fun id e he => Props.check_eq_ok_iff.2 ((checkLoad_eq_ok_iff_admits.1 h).2.2.2 id e he)

/-- Every name of a prop that passes the check is an attribute name, and none that the generator
writes by itself, or it is one with a line feed behind it.  Where no name ends in a line feed the
opening tags written of a document that has been read with a catalog, and of every page at every
point of a session with the built-in one, even if it starts with such a document, have each
attribute once, and a class name only for their style. -/
theorem className_from_style (catalog : Catalog) :
    (∀ {props name}, Props.check props = .ok () → name ∈ props.keys →
      ∃ base, Props.WellNamed base ∧
        (name = base ∧ base ∉ Props.reserved ∨ name = base ++ "\n")) ∧
    (∀ {text snapshot}, Archive.read text catalog = .ok snapshot →
      snapshot.page.WritesApart) ∧
    ∀ {initial limit preferences start steps past later}, Initial catalog initial →
      Session.start .builtIn initial limit preferences = .ok start →
      events start steps = past ++ later →
      (reached start past).draft.page.WritesApart ∧
        ∀ entry ∈ (reached start past).timeline.entries, entry.page.WritesApart := by
  refine ⟨?_, ?_, ?_⟩
  · intro props name hcheck hm
    obtain ⟨hform, hfree⟩ := Props.named_of_check hcheck hm
    obtain ⟨base, hbase, rfl | rfl⟩ := Props.isName_iff.1 hform
    · exact ⟨name, hbase, Or.inl ⟨rfl, hfree⟩⟩
    · exact ⟨base, hbase, Or.inr rfl⟩
  · exact fun hread => (every_checked_of_read hread).writesApart
  · intro initial limit preferences start steps past later hinitial hstart hevents
    have hpage : initial.page.Every Element.Checked :=
      fun _ _ he => (hinitial.valid.page.saveable he).props_checked
    have hheld := reached_holding Catalog.builtIn_fit.orBuiltIn.defaultsChecked.kept
      every_checked_of_checkLoad hstart hpage hevents
    exact ⟨hheld.page.writesApart, fun entry hm => (hheld.entries entry hm).writesApart⟩

/-- A text with a title in a container, and the three tags that are written of them. -/
theorem className_from_style_titled :
    let steps : List Step := [
      .command (.insert none "container" none .empty .empty) false,
      .command (.insert (some "el_1") "text" none (.ofList [("title", .str "x")]) .empty) false]
    ∃ start known, Session.start .builtIn .empty none {} = .ok start ∧
      let page := (reached start (events start steps)).draft.page
      page.WritesApart ∧ Markup.components .builtIn page = .ok known ∧
        Markup.linesFrom page known "  " 0 "el_1" = .ok
          ["<Container className=\"w-full\">", "  <Text text=\"Text\" title=\"x\" />",
            "</Container>"] ∧
        ∀ p ∈ page.elements.entries, ∀ name ∈ p.2.props.keys, '\n' ∉ name.toList := by
  intro steps
  have hrun : ((Session.start .builtIn .empty none {}).toOption.any fun start =>
      let page := (reached start (events start steps)).draft.page
      (Markup.components .builtIn page).toOption.any fun known =>
        (Markup.linesFrom page known "  " 0 "el_1").toOption.any (· =
          ["<Container className=\"w-full\">", "  <Text text=\"Text\" title=\"x\" />",
            "</Container>"]) &&
        page.elements.entries.all fun p => p.2.props.keys.all fun name =>
          !name.toList.contains '\n') = true := by
    decide +kernel
  obtain ⟨start, hstart, hrun⟩ := exists_of_any hrun
  obtain ⟨known, hknown, hrun⟩ := exists_of_any hrun
  obtain ⟨hlines, hnames⟩ := Bool.and_eq_true_iff.1 hrun
  obtain ⟨written, hwritten, heq⟩ := exists_of_any hlines
  obtain rfl := of_decide_eq_true heq
  refine ⟨start, known, hstart, ?_, hknown, hwritten, ?_⟩
  · exact ((className_from_style .builtIn).2.2 (Or.inl rfl) hstart (List.append_nil _).symm).1
  · simpa using hnames

/-- The name of a prop that passes its check with a line feed is read as that of the class name,
beside the one that is written for the style. -/
theorem className_from_style_line_feed :
    ¬ Props.WellNamed "className\n" ∧
    ∃ after e, Draft.insert none "container" none (.ofList [("className\n", .str "x")]) .empty
        ⟨.builtIn, {}, {}⟩ = .ok "el_1" after ∧
      after.page.get? "el_1" = some e ∧
      (Markup.attributeTexts (Catalog.builtIn.componentOf "container") e).map Markup.nameOf =
        ["className", "className"] := by
  constructor
  · intro h
    exact absurd (h.isNameChar (c := '\n') (by decide)) (by decide)
  · have hrun : succeeds (Draft.insert none "container" none
        (.ofList [("className\n", .str "x")]) .empty ⟨.builtIn, {}, {}⟩) (fun id after =>
          id = "el_1" && (after.page.get? "el_1").any fun e =>
            (Markup.attributeTexts (Catalog.builtIn.componentOf "container") e).map Markup.nameOf =
              ["className", "className"]) = true := by
      decide +kernel
    obtain ⟨id, after, hrun, hcheck⟩ := exists_of_succeeds hrun
    obtain ⟨hid, hread⟩ := Bool.and_eq_true_iff.1 hcheck
    obtain rfl := of_decide_eq_true hid
    obtain ⟨e, he, hnames⟩ := (Option.any_eq_true _ _).1 hread
    exact ⟨after, e, hrun, he, of_decide_eq_true hnames⟩

end Session

end PageBuilder
