import PageBuilder.Markup.Lines
import PageBuilder.Proofs.Markup.Texts
import PageBuilder.Proofs.Page.Integrity
import PageBuilder.Proofs.Page.Outline
import PageBuilder.Proofs.Results

/-!
# Markup is the tree written down

The lines are written from an agenda on which elements still to open and tags still to close are
mixed.  What comes out is a recursion over the outline of the page (`Outline.tags`): the tag of an
element, the tags of its children one level deeper, and its closing tag.  What is on the agenda
below an element does not matter until all of the element is written, so the proof is an
induction over outlines with an arbitrary rest (`lines_outline`).
-/

namespace PageBuilder

/-- The component of a kind; an empty one of that name for a kind that the catalog does not have. -/
def Catalog.componentOf (catalog : Catalog) (kind : String) : Component :=
  (catalog.get? kind).getD { kind := kind, tag := kind, name := kind, shelf := kind }

theorem Catalog.get?_of_contains {catalog : Catalog} {kind : String}
    (h : catalog.contains kind = true) : catalog.get? kind = some (catalog.componentOf kind) := by
  obtain ⟨component, hc⟩ := Option.isSome_iff_exists.1 h
  have hget : catalog.get? kind = some component := hc
  rw [componentOf, hget, Option.getD_some]

/-! ## The tags of an outline -/

/-- One line of markup: the tag of an element without children, or one of the two tags of an
element with children. -/
inductive Tag
  | alone (e : Element) (depth : Nat)
  | opens (e : Element) (depth : Nat)
  | closes (e : Element) (depth : Nat)

namespace Tag

/-- The element that begins with a tag. -/
def beginning : Tag → Option Element
  | alone e _ => some e
  | opens e _ => some e
  | closes _ _ => none

/-- What stands between the brackets when an element begins: the name of its tag, an attribute
for each prop, and the class name if there is one. -/
def head (component : Component) (e : Element) : String :=
  component.tag ++
    String.join ((Markup.attributeOrder e.props component.props).map fun name =>
      " " ++ Markup.attributeText name ((e.props.get? name).getD .null)) ++
    if Style.classText e.style = "" then ""
    else " " ++ ("className=\"" ++ Style.classText e.style ++ "\"")

/-- As many units of indentation as a tag is deep. -/
def margin (unit : String) (depth : Nat) : String :=
  String.join (List.replicate depth unit)

/-- A tag as it is written, if `find` gives the component of a kind. -/
def line (find : String → Component) (unit : String) : Tag → String
  | alone e depth => margin unit depth ++ "<" ++ head (find e.kind) e ++ " />"
  | opens e depth => margin unit depth ++ "<" ++ head (find e.kind) e ++ ">"
  | closes e depth => margin unit depth ++ "</" ++ (find e.kind).tag ++ ">"

end Tag

/-- Tags that close what they open and what was open `around` them, the innermost element first.
Each element begins in its parent, and every tag stands as many levels in as elements are
open. -/
inductive Nested (base : Nat) : List Element → List Tag → Prop
  | done : Nested base [] []
  | alone {e : Element} {around : List Element} {rest : List Tag}
      (hparent : e.parent = around.head?.map Element.id) (h : Nested base around rest) :
      Nested base around (.alone e (base + around.length) :: rest)
  | opens {e : Element} {around : List Element} {rest : List Tag}
      (hparent : e.parent = around.head?.map Element.id) (h : Nested base (e :: around) rest) :
      Nested base around (.opens e (base + around.length) :: rest)
  | closes {e : Element} {around : List Element} {rest : List Tag} (h : Nested base around rest) :
      Nested base (e :: around) (.closes e (base + around.length) :: rest)

namespace Outline

mutual

/-- The tags of an element and of all below it, from a depth on. -/
def tags (depth : Nat) : Outline → List Tag
  | .node e below =>
    match below with
    | [] => [.alone e depth]
    | _ :: _ => .opens e depth :: allTags (depth + 1) below ++ [.closes e depth]

/-- The tags of outlines one after the other. -/
def allTags (depth : Nat) : List Outline → List Tag
  | [] => []
  | o :: rest => o.tags depth ++ allTags depth rest

end

mutual

theorem filterMap_tags : ∀ (o : Outline) (depth : Nat),
    (o.tags depth).filterMap Tag.beginning = o.preorder
  | .node e [], depth => rfl
  | .node e (o :: rest), depth => by
    simp [tags, preorder, Tag.beginning, filterMap_allTags (o :: rest) (depth + 1)]

theorem filterMap_allTags : ∀ (os : List Outline) (depth : Nat),
    (allTags depth os).filterMap Tag.beginning = preorders os
  | [], depth => rfl
  | o :: rest, depth => by
    rw [allTags, List.filterMap_append, filterMap_tags o, filterMap_allTags rest, preorders]

end

theorem tags_ne_nil (o : Outline) (depth : Nat) : o.tags depth ≠ [] := by
  obtain ⟨e, below⟩ := o
  cases below <;> simp [tags]

variable {page : Page}

theorem isEmpty_children {e : Element} {below : List Outline}
    (hc : e.children = below.map fun o => o.top.id) : e.children.isEmpty = below.isEmpty := by
  rw [hc, List.isEmpty_map]

mutual

/-- Elements with children take two lines. -/
theorem length_tags : ∀ {o : Outline}, o.DrawnFrom page → ∀ depth,
    (o.tags depth).length =
      o.preorder.length + o.preorder.countP fun e => !e.children.isEmpty
  | .node e below, hd, depth => by
    simp only [DrawnFrom] at hd
    obtain ⟨-, hc, hall⟩ := hd
    have hempty := isEmpty_children hc
    cases below with
    | nil => simp [tags, preorder, preorders, hempty]
    | cons o rest =>
      have := length_allTags hall (depth + 1)
      simp [tags, preorder, hempty, this]
      omega

theorem length_allTags : ∀ {os : List Outline}, AllDrawnFrom page os → ∀ depth,
    (allTags depth os).length =
      (preorders os).length + (preorders os).countP fun e => !e.children.isEmpty
  | [], _, _ => rfl
  | o :: rest, hd, depth => by
    simp only [AllDrawnFrom] at hd
    rw [allTags, preorders, List.length_append, List.length_append, List.countP_append,
      length_tags hd.1, length_allTags hd.2]
    omega

end

section Nesting

variable {base : Nat} {around : List Element} {rest : List Tag}

mutual

theorem nested_tags (hl : page.Linked) : ∀ {o : Outline} {around : List Element}
    {rest : List Tag}, o.DrawnFrom page → o.top.parent = around.head?.map Element.id →
      Nested base around rest → Nested base around (o.tags (base + around.length) ++ rest)
  | .node e [], around, rest, _, hp, h => .alone hp h
  | .node e (o :: os), around, rest, hd, hp, h => by
    simp only [DrawnFrom] at hd
    obtain ⟨he, hc, hall⟩ := hd
    -- The children stand in `e`, which is closed after them.
    have hclosed := nested_allTags hl hall
      (fun p hm => hl.parent_of_lists ⟨e, he, hc ▸ List.mem_map_of_mem hm⟩
        (allDrawnFrom_iff.1 hall p hm).get?_top) (Nested.closes (e := e) h)
    rw [tags]
    simpa using Nested.opens hp hclosed

theorem nested_allTags (hl : page.Linked) : ∀ {os : List Outline} {e : Element}
    {around : List Element} {rest : List Tag}, AllDrawnFrom page os →
      (∀ o ∈ os, o.top.parent = some e.id) → Nested base (e :: around) rest →
        Nested base (e :: around) (allTags (base + around.length + 1) os ++ rest)
  | [], e, around, rest, _, _, h => h
  | o :: os, e, around, rest, hd, hp, h => by
    simp only [AllDrawnFrom] at hd
    have hrest := nested_allTags hl hd.2 (fun p hm => hp p (List.mem_cons_of_mem _ hm)) h
    rw [allTags, List.append_assoc]
    exact nested_tags hl hd.1 (hp o List.mem_cons_self) hrest

end

end Nesting

end Outline

namespace Markup

open Outline Page Results

variable {page : Page} {catalog : Catalog}

/-! ## The attributes of a tag -/

theorem join_cons (separator s : String) (rest : List String) :
    Text.join separator (s :: rest) = s ++ String.join (rest.map (separator ++ ·)) := by
  induction rest generalizing s with
  | nil => simp [Text.join]
  | cons t rest ih => simp [Text.join, ih, String.join_cons, String.append_assoc]

theorem tagText_eq_head (component : Component) (e : Element) :
    tagText component e = Tag.head component e := by
  rw [tagText, join_cons, attributeTexts, Tag.head, map_writtenProps]
  by_cases hc : Style.classText e.style = ""
  · simp [hc, Function.comp_def]
  · have hne : (Style.classText e.style).isEmpty = false := by simpa using hc
    simp [hc, hne, Function.comp_def, String.append_assoc]

theorem pad_eq_margin (unit : String) (depth : Nat) : pad unit depth = Tag.margin unit depth := by
  induction depth with
  | zero => rfl
  | succ depth ih =>
    rw [pad, ih]
    exact (String.join_cons (s := unit) (l := List.replicate depth unit)).symm

/-! ## Looking up the components -/

/-- How a walk over the page looks up the kind of an element: only if it is met first. -/
def lookUp (catalog : Catalog) (found : OrderedMap Component) (e : Element) :
    Except Failure (OrderedMap Component) :=
  if found.contains e.kind then .ok found
  else found.insert e.kind <$> catalog.require e.kind (some e.id)

theorem componentsFrom_eq (catalog : Catalog) (hl : page.Linked) {o : Outline}
    (hd : o.DrawnFrom page) :
    componentsFrom catalog page o.top.id = o.preorder.foldlM (lookUp catalog) .empty :=
  walkFrom_eq (lookUp catalog) .empty hd (height_lt_size hl hd)

/-- Kinds that the catalog has are all found. -/
theorem foldlM_lookUp {es : List Element} (h : ∀ e ∈ es, catalog.contains e.kind = true)
    (found : OrderedMap Component) :
    ∃ known, es.foldlM (lookUp catalog) found = .ok known ∧
      ∀ kind, known.get? kind = (found.get? kind).or
        (if kind ∈ es.map Element.kind then some (catalog.componentOf kind) else none) := by
  induction es generalizing found with
  | nil => exact ⟨found, rfl, by simp⟩
  | cons e rest ih =>
    obtain ⟨hkind, hrest⟩ := List.forall_mem_cons.1 h
    have he := Catalog.get?_of_contains hkind
    rw [List.foldlM_cons]
    cases hc : found.get? e.kind with
    | some component =>
      obtain ⟨known, hknown, hget⟩ := ih hrest found
      refine ⟨known, by simpa [lookUp, OrderedMap.contains, hc] using hknown, fun kind => ?_⟩
      rw [hget]
      by_cases hk : kind = e.kind
      · simp [hk, hc]
      · simp [hk]
    | none =>
      obtain ⟨known, hknown, hget⟩ := ih hrest (found.insert e.kind (catalog.componentOf e.kind))
      refine ⟨known, ?_, fun kind => ?_⟩
      · simpa [lookUp, OrderedMap.contains, hc, Catalog.require, he] using hknown
      · rw [hget, OrderedMap.get?_insert]
        by_cases hk : kind = e.kind
        · simp [hk, hc]
        · simp [hk]

theorem components_eq (hl : page.Linked) {o : Outline} (hd : o.DrawnFrom page)
    (hroot : page.root = some o.top.id)
    (hkinds : ∀ e ∈ o.preorder, catalog.contains e.kind = true) :
    ∃ known, components catalog page = .ok known ∧
      ∀ e ∈ o.preorder, known.get? e.kind = some (catalog.componentOf e.kind) := by
  obtain ⟨known, hknown, hget⟩ := foldlM_lookUp hkinds .empty
  refine ⟨known, ?_, fun e hm => ?_⟩
  · simp only [components, hroot, componentsFrom_eq catalog hl hd, hknown]
  · rw [hget, if_pos (List.mem_map_of_mem hm)]
    rfl

/-! ## Writing an outline -/

section Writing

/-- What keeps elements from being written, the first of them first. -/
def firstFault? (find : String → Component) (es : List Element) : Option TextFault :=
  es.findSome? fun e => tagFault? (find e.kind) e

theorem firstFault?_cons (find : String → Component) (e : Element) (es : List Element) :
    firstFault? find (e :: es) = (tagFault? (find e.kind) e).or (firstFault? find es) := by
  rw [firstFault?, List.findSome?_cons]
  cases tagFault? (find e.kind) e <;> rfl

theorem firstFault?_append (find : String → Component) (es fs : List Element) :
    firstFault? find (es ++ fs) = (firstFault? find es).or (firstFault? find fs) :=
  List.findSome?_append

theorem firstFault?_eq_none_iff {find : String → Component} {es : List Element} :
    firstFault? find es = none ↔ ∀ e ∈ es, e.HasTexts := by
  simp only [firstFault?, List.findSome?_eq_none_iff, tagFault?_eq_none_iff]

variable {known : OrderedMap Component} {find : String → Component} {unit : String}

mutual

/-- On top of an agenda an outline is written down before the rest, if it has generations to
spare, or fails at the first of its elements that lacks a text. -/
theorem lines_outline : ∀ {o : Outline} {n : Nat}, o.DrawnFrom page → o.height < n →
    (∀ e ∈ o.preorder, known.get? e.kind = some (find e.kind)) → ∀ depth rest,
      lines page known unit (.open o.top.id depth n :: rest) =
        unlessFault (firstFault? find o.preorder)
          (((o.tags depth).map (Tag.line find unit) ++ ·) <$> lines page known unit rest)
  | .node e below, n, hd, hn, hknown, depth, rest => by
    obtain ⟨n, rfl⟩ : ∃ k, n = k + 1 := ⟨n - 1, by omega⟩
    simp only [DrawnFrom] at hd
    obtain ⟨he, hc, hall⟩ := hd
    obtain ⟨hkind, hbelow⟩ := List.forall_mem_cons.1 hknown
    have hempty := isEmpty_children hc
    rw [top_node, lines]
    split
    · rename_i hnone
      exact absurd (hnone.symm.trans he) (by simp)
    · rename_i f hf
      cases he.symm.trans hf
      simp only [hkind, opening_eq, tagText_eq_head, pad_eq_margin, preorder, firstFault?_cons,
        ← unlessFault_unlessFault]
      cases tagFault? (find e.kind) e with
      | some fault => rfl
      | none =>
        cases below with
        | nil =>
          simp only [hempty, List.isEmpty_nil, if_true]
          rfl
        | cons o os =>
          -- The children and the closing tag are put on top of the rest.
          have hagenda : (e.children.map fun c => Task.open c (depth + 1) n) =
              (o :: os).map fun o => .open o.top.id (depth + 1) n := by
            simp [hc]
          have hwritten := lines_outlines hall (Nat.le_of_lt_succ hn) hbelow (depth + 1)
            (.close (find e.kind).tag depth :: rest)
          simp only [hempty, List.isEmpty_cons, hagenda, hwritten, unlessFault_none]
          rw [lines, pad_eq_margin, if_neg Bool.false_ne_true, map_unlessFault]
          congr 1
          cases lines page known unit rest <;> simp [tags, Tag.line]

theorem lines_outlines : ∀ {os : List Outline} {n : Nat}, AllDrawnFrom page os →
    heights os ≤ n → (∀ e ∈ preorders os, known.get? e.kind = some (find e.kind)) →
      ∀ depth rest,
      lines page known unit ((os.map fun o => .open o.top.id depth n) ++ rest) =
        unlessFault (firstFault? find (preorders os))
          (((allTags depth os).map (Tag.line find unit) ++ ·) <$> lines page known unit rest)
  | [], n, _, _, _, depth, rest => by
    simp [allTags, preorders, firstFault?]
  | o :: os, n, hd, hn, hknown, depth, rest => by
    simp only [AllDrawnFrom] at hd
    obtain ⟨hfirst, hothers⟩ := List.forall_mem_append.1 hknown
    rw [heights, Nat.max_le] at hn
    have hwritten := lines_outlines hd.2 hn.2 hothers depth rest
    rw [List.map_cons, List.cons_append, lines_outline hd.1 hn.1 hfirst, hwritten, map_unlessFault,
      unlessFault_unlessFault, preorders, firstFault?_append]
    congr 1
    cases lines page known unit rest <;> simp [allTags]

end

theorem linesFrom_eq (hl : page.Linked) {o : Outline} (hd : o.DrawnFrom page)
    (hknown : ∀ e ∈ o.preorder, known.get? e.kind = some (find e.kind)) (depth : Nat) :
    linesFrom page known unit depth o.top.id =
      unlessFault (firstFault? find o.preorder)
        (.ok ((o.tags depth).map (Tag.line find unit))) := by
  have hspare : o.height < page.generations := Nat.lt_succ_of_lt (height_lt_size hl hd)
  rw [linesFrom, lines_outline hd hspare hknown, lines, map_ok, List.append_nil]

end Writing

/-- A page with a root has an outline from there. -/
theorem exists_outline_of_root (hl : page.Linked) (hk : page.Keyed) {root : String}
    (hroot : page.root = some root) :
    ∃ o : Outline, o.DrawnFrom page ∧ o.top.id = root ∧ o.top.parent = none := by
  obtain ⟨e, he, hparent⟩ := hl.root_stored hroot
  obtain ⟨o, hd, rfl, -⟩ := hl.exists_outline hk he
  exact ⟨o, hd, hk he, hparent⟩

/-- The elements of an outline of the page can all be written exactly if those of the page can. -/
theorem firstFault?_preorder_iff (hl : page.Linked) (hk : page.Keyed) {o : Outline}
    (hd : o.DrawnFrom page) (hroot : page.root = some o.top.id) {find : String → Component} :
    firstFault? find o.preorder = none ↔ page.HasTexts := by
  rw [firstFault?_eq_none_iff]
  constructor
  · intro h id e he
    apply h
    rw [(perm_preorder hl hk hd hroot).mem_iff]
    exact List.mem_map.2 ⟨(id, e), (page.elements.mem_entries_iff _ _).2 he, rfl⟩
  · exact fun h e hm => h _ _ (drawn_of_mem_preorder hl hd hm).1

/-- The lines of a page that is a tree are its tags, written down recursively: properly nested, one
beginning for every element, and one line more for every element with children.  There are lines
exactly if every value that stands in a tag has a text, and else the first one without is reported.
Any catalog will do that has the kinds of the page. -/
theorem linesFrom_eq_tags {checker : Catalog} {root : String} (hk : page.Keyed)
    (hp : page.problems checker false = []) (hroot : page.root = some root)
    (hkinds : ∀ {id e}, page.get? id = some e → catalog.contains e.kind = true) (unit : String)
    (depth : Nat) :
    ∃ (known : OrderedMap Component) (o : Outline),
      components catalog page = .ok known ∧ o.DrawnFrom page ∧ o.top.id = root ∧
      linesFrom page known unit depth root =
        unlessFault (firstFault? catalog.componentOf o.preorder)
          (.ok ((o.tags depth).map (Tag.line catalog.componentOf unit))) ∧
      (firstFault? catalog.componentOf o.preorder = none ↔ page.HasTexts) ∧
      Nested depth [] (o.tags depth) ∧
      ((o.tags depth).filterMap Tag.beginning).Perm page.elements.values ∧
      (o.tags depth).length =
        page.size + page.elements.values.countP fun e => !e.children.isEmpty := by
  have hl := (problems_eq_nil_iff.1 hp).1.linked
  obtain ⟨o, hd, rfl, hparent⟩ := exists_outline_of_root hl hk hroot
  obtain ⟨known, hknown, hkind⟩ := components_eq hl hd hroot fun e hm =>
    hkinds (drawn_of_mem_preorder hl hd hm).1
  have hperm := perm_preorder hl hk hd hroot
  refine ⟨known, o, hknown, hd, rfl, linesFrom_eq hl hd hkind depth,
    firstFault?_preorder_iff hl hk hd hroot, ?_, ?_, ?_⟩
  · simpa using @nested_tags page depth hl o [] [] hd (by simpa using hparent) .done
  · rwa [filterMap_tags]
  · rw [length_tags hd, hperm.countP_eq, hperm.length_eq, OrderedMap.values, List.length_map]
    rfl

/-- A text in a container. -/
theorem linesFrom_eq_tags_pair :
    ∃ (known : OrderedMap Component) (o : Outline),
      components .builtIn Page.pair = .ok known ∧ o.DrawnFrom Page.pair ∧ o.top.id = "el_1" ∧
      linesFrom Page.pair known "  " 2 "el_1" =
        .ok ((o.tags 2).map (Tag.line Catalog.builtIn.componentOf "  ")) ∧
      Nested 2 [] (o.tags 2) ∧
      ((o.tags 2).filterMap Tag.beginning).Perm Page.pair.elements.values ∧
      (o.tags 2).length =
        Page.pair.size + Page.pair.elements.values.countP fun e => !e.children.isEmpty := by
  have hall : ∀ p ∈ Page.pair.elements.entries, Catalog.builtIn.contains p.2.kind = true := by
    decide +kernel
  obtain ⟨known, o, hknown, hd, htop, hlines, hfault, htags⟩ :=
    linesFrom_eq_tags Page.pair_wellFormed.keyed
      (wellFormed_iff_problems.1 Page.pair_wellFormed).2 rfl
      (fun {id e} he => hall (id, e) ((Page.pair.elements.mem_entries_iff id e).2 he)) "  " 2
  rw [hfault.2 (by decide +kernel)] at hlines
  exact ⟨known, o, hknown, hd, htop, hlines, htags⟩

/-- A text whose title is an integer of too many digits. -/
def overlongText : Element :=
  ⟨"a", "text", .ofList [("title", .int Number.overlong)], .empty, [], none⟩

/-- The page of that text alone. -/
def overlongPage : Page where
  elements := .ofList [("a", overlongText)]
  root := some "a"

theorem overlongPage_problems : overlongPage.problems .builtIn true = [] := by
  decide +kernel

theorem lines_overlongPage : ∃ known, components .builtIn overlongPage = .ok known ∧
    ∀ unit depth, linesFrom overlongPage known unit depth "a" = .error (.noText .longInteger) := by
  have hl := (problems_eq_nil_iff.1 overlongPage_problems).1.linked
  have hd : (Outline.node overlongText []).DrawnFrom overlongPage := ⟨rfl, rfl, trivial⟩
  obtain ⟨known, hknown, hkind⟩ := @components_eq overlongPage .builtIn hl _ hd rfl
    (List.forall_mem_singleton.2 (by decide +kernel))
  have hwritten : writtenProps (Catalog.builtIn.componentOf "text") overlongText =
      [("title", .int Number.overlong)] := by
    decide +kernel
  have hfault : firstFault? Catalog.builtIn.componentOf [overlongText] = some .longInteger := by
    rw [firstFault?_cons, tagFault?, show overlongText.kind = "text" from rfl, hwritten,
      List.findSome?_cons, Value.textFault?_overlong]
    rfl
  refine ⟨known, hknown, fun unit depth => ?_⟩
  have hlines := @linesFrom_eq _ _ _ unit hl _ hd hkind depth
  rwa [show (Outline.node overlongText []).preorder = [overlongText] from rfl, hfault] at hlines

/-- Nothing is wrong with the structure of the page, and yet it has no lines. -/
theorem linesFrom_eq_tags_overlong :
    overlongPage.problems .builtIn true = [] ∧
    ∃ known, components .builtIn overlongPage = .ok known ∧
      linesFrom overlongPage known "  " 0 "a" = .error (.noText .longInteger) := by
  obtain ⟨known, hknown, hlines⟩ := lines_overlongPage
  exact ⟨overlongPage_problems, known, hknown, hlines "  " 0⟩

end Markup

end PageBuilder
