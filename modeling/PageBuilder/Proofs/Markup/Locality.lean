import PageBuilder.Proofs.Draft.Faithful
import PageBuilder.Proofs.Page.Context
import PageBuilder.Proofs.Session.Coupled
import PageBuilder.Proofs.Source.Renaming

/-!
# Edits show where they are made

The tags of a page are those of a context around those of what stands in its hole
(`Context.tags_plug`), and an edit changes what stands in the hole only.  So the lines before and
after it stay as they are, whatever the shape of the page and wherever in it the edit is made; what
is left is to look at the tags of one element and of its children.

`Shows` fixes which lines an element takes by where it is in the tree, not by what they say: other
elements may well be written in the same way, and after an element is duplicated one is.

A page has lines only if every value in its tags has a text.  Edits of the structure keep that; an
edit of props or of a style may bring in a value that has none, or bring to light a layout value
that was not looked at while the element was hidden, so there it is asked of the page afterwards as
well.
-/

namespace PageBuilder

open Outline

/-! ## The tags of a context -/

namespace Tag

variable {find : String → Component} {unit : String}

/-- Children do not show in the tags of an element. -/
@[simp] theorem line_opens_children (e : Element) (children : List String) (depth : Nat) :
    line find unit (.opens { e with children := children } depth) =
      line find unit (.opens e depth) := rfl

@[simp] theorem line_closes_children (e : Element) (children : List String) (depth : Nat) :
    line find unit (.closes { e with children := children } depth) =
      line find unit (.closes e depth) := rfl

end Tag

namespace Outline

theorem allTags_append (depth : Nat) (os ps : List Outline) :
    allTags depth (os ++ ps) = allTags depth os ++ allTags depth ps := by
  induction os with
  | nil => rfl
  | cons o rest ih => simp [allTags, ih]

/-- An element with children opens, holds the tags of the children, and closes. -/
theorem tags_of_ne_nil {e : Element} {below : List Outline} (h : below ≠ []) (depth : Nat) :
    (Outline.node e below).tags depth =
      .opens e depth :: allTags (depth + 1) below ++ [.closes e depth] := by
  cases below with
  | nil => exact absurd rfl h
  | cons o rest => rw [tags]

namespace Context

/-- The tags before those of what stands in the hole. -/
def tagsAhead (depth : Nat) : Context → List Tag
  | .hole => []
  | .node e left inner _ =>
    .opens e depth :: allTags (depth + 1) left ++ inner.tagsAhead (depth + 1)

/-- The tags after those of what stands in the hole. -/
def tagsBehind (depth : Nat) : Context → List Tag
  | .hole => []
  | .node e _ inner right =>
    inner.tagsBehind (depth + 1) ++ allTags (depth + 1) right ++ [.closes e depth]

theorem tags_plug (c : Context) (o : Outline) (depth : Nat) :
    (c.plug o).tags depth =
      c.tagsAhead depth ++ o.tags (depth + c.depth) ++ c.tagsBehind depth := by
  induction c generalizing depth with
  | hole => simp [plug, tagsAhead, tagsBehind, Context.depth]
  | node e left inner right ih =>
    have hdepth : depth + 1 + inner.depth = depth + (inner.depth + 1) := by omega
    rw [plug, tags_of_ne_nil (by simp), allTags_append, allTags, ih, hdepth]
    simp [tagsAhead, tagsBehind, Context.depth]

theorem tagsAhead_child (c : Context) (host : Element) (left right : List Outline) (depth : Nat) :
    (c.child host left right).tagsAhead depth =
      c.tagsAhead depth ++
        .opens host (depth + c.depth) :: allTags (depth + c.depth + 1) left := by
  induction c generalizing depth with
  | hole => simp [child, tagsAhead, Context.depth]
  | node e before inner after ih =>
    have hdepth : depth + 1 + inner.depth = depth + (inner.depth + 1) := by omega
    simp [child, tagsAhead, Context.depth, ih, hdepth]

theorem tagsBehind_child (c : Context) (host : Element) (left right : List Outline) (depth : Nat) :
    (c.child host left right).tagsBehind depth =
      allTags (depth + c.depth + 1) right ++
        .closes host (depth + c.depth) :: c.tagsBehind depth := by
  induction c generalizing depth with
  | hole => simp [child, tagsBehind, Context.depth]
  | node e before inner after ih =>
    have hdepth : depth + 1 + inner.depth = depth + (inner.depth + 1) := by omega
    simp [child, tagsBehind, Context.depth, ih, hdepth]

end Context

end Outline

/-! ## Copies -/

namespace Draft

open Page

/-- Attaching a copy of an element puts a twin of it and of all below it into the page. -/
theorem twins_of_attach {draft after : Draft} (hl : draft.page.Linked) (hk : draft.page.Keyed)
    (ha : draft.ids.Ahead draft.page) {id new : String} {parent : Option String}
    {index : Option Int} {nodes : List Element} (hcopy : draft.copy id = .ok nodes)
    (hrun : Draft.attach parent nodes index draft = .ok new after) :
    after.page.Linked ∧ after.page.Keyed ∧
      ∃ name part, draft.page.Grafted part parent index new after.page ∧ name id = new ∧
        ∀ {x e}, draft.page.Reaches id x → draft.page.get? x = some e →
          after.page.HasTwin name e := by
  obtain ⟨name, part, hlpart, hkpart, hid, hreissued, hg⟩ :=
    reissued_of_attach hl hk ha hcopy hrun
  refine ⟨hl.grafted hlpart hg, hk.grafted hkpart hg, name, part, hg, hid, ?_⟩
  intro x e hr he
  obtain rfl : e.id = x := hk he
  refine ⟨_, hg.get?_part (hreissued.get?_name hr he), ?_⟩
  split <;> exact ⟨rfl, rfl, .refl _, .refl _⟩

end Draft

/-- An element can be written with the components of a catalog: it has the kind, and every value in
the tag has a text. -/
structure Element.ShownBy (catalog : Catalog) (e : Element) : Prop where
  kind : catalog.contains e.kind = true
  texts : e.HasTexts

namespace Element

variable {catalog : Catalog} {e f : Element}

theorem ShownBy.congr (h : e.ShownBy catalog) (hkind : f.kind = e.kind) (hprops : f.props = e.props)
    (hstyle : f.style = e.style) : f.ShownBy catalog where
  kind := hkind ▸ h.kind
  texts := ⟨hprops ▸ h.texts.props, hstyle ▸ h.texts.style⟩

/-- A twin is shown as the original is. -/
theorem ShownBy.sameUnder {name : String → String} (h : e.ShownBy catalog)
    (hsame : e.SameUnder name f) : f.ShownBy catalog where
  kind := hsame.kind ▸ h.kind
  texts := ⟨fun p hp => h.texts.props p (hsame.props.perm.mem_iff.1 hp),
    (Style.textFault?_congr hsame.style).trans h.texts.style⟩

end Element

namespace Markup

open Page

/-! ## Which lines an element takes -/

section Lines

variable (catalog : Catalog) (unit : String) (page : Page) (depth : Nat)

/-- Tags as they are written. -/
def written (tags : List Tag) : List String :=
  tags.map (Tag.line catalog.componentOf unit)

/-- The lines that an element and all below it take in the markup of a page. -/
def Takes (id : String) (lines : List String) : Prop :=
  ∃ known, components catalog page = .ok known ∧ linesFrom page known unit depth id = .ok lines

/-- The lines of the markup of a page. -/
def Emits (lines : List String) : Prop :=
  ∃ root, page.root = some root ∧ Takes catalog unit page depth root lines

/-- The lines of a page, with those set apart that an element so many levels in and all below it
take. -/
def Shows (id : String) (level : Nat) (before block after : List String) : Prop :=
  ∃ c o, page.DrawnAround c o ∧ o.top.id = id ∧ level = depth + c.depth ∧
    before = written catalog unit (c.tagsAhead depth) ∧
    after = written catalog unit (c.tagsBehind depth) ∧
    Takes catalog unit page level id block ∧
    Emits catalog unit page depth (before ++ block ++ after)

end Lines

/-- The import lines of a page. -/
def Imports (catalog : Catalog) (options : Source.Options) (page : Page) (header : String) : Prop :=
  ∃ known, components catalog page = .ok known ∧
    header = Source.importHeader options known.values

/-! ## What an edit can do to the lines -/

section Changes

variable (catalog : Catalog) (unit : String) (depth : Nat) (page other : Page)

/-- At most one line is different, the first that an element takes, and no import line is. -/
def Retouched (id : String) : Prop :=
  (∃ level before first first' inner after,
    Shows catalog unit page depth id level before (first :: inner) after ∧
    Shows catalog unit other depth id level before (first' :: inner) after) ∧
  ∀ options, ∃ header, Imports catalog options page header ∧ Imports catalog options other header

/-- The lines of an element are gone.  If it was the only child, one line that closes itself
stands for its parent. -/
def Withdrawn (id : String) : Prop :=
  ∃ parent host, page.get? parent = some host ∧ id ∈ host.children ∧
    if host.children = [id] then
      ∃ level before opening block closing after,
        [opening, closing] = written catalog unit [.opens host level, .closes host level] ∧
        Shows catalog unit page depth parent level before (opening :: block ++ [closing]) after ∧
        Shows catalog unit page depth id (level + 1) (before ++ [opening]) block
          (closing :: after) ∧
        Shows catalog unit other depth parent level before
          (written catalog unit [.alone host level]) after
    else
      ∃ level before block after, Shows catalog unit page depth id level before block after ∧
        Emits catalog unit other depth (before ++ after)

/-- The lines of an element are there twice, and those that come second are those of a new
element. -/
def Repeated (id new : String) : Prop :=
  ∃ level before block after, Shows catalog unit page depth id level before block after ∧
    Shows catalog unit other depth id level before block (block ++ after) ∧
    Shows catalog unit other depth new level (before ++ block) block after

/-- The children of an element take the lines they took, in the order they are in now. -/
def Reordered (parent : String) : Prop :=
  ∃ host host' level before opening closing after,
    page.get? parent = some host ∧ other.get? parent = some host' ∧
    ∃ blocks blocks' : List (String × List String),
      blocks.map Prod.fst = host.children ∧ blocks'.map Prod.fst = host'.children ∧
      blocks'.Perm blocks ∧
      (∀ p ∈ blocks, Takes catalog unit page (level + 1) p.1 p.2 ∧
        Takes catalog unit other (level + 1) p.1 p.2) ∧
      Shows catalog unit page depth parent level before
        (opening :: blocks.flatMap Prod.snd ++ [closing]) after ∧
      Shows catalog unit other depth parent level before
        (opening :: blocks'.flatMap Prod.snd ++ [closing]) after

end Changes

variable {catalog : Catalog} {unit : String} {page other : Page} {c : Context} {o o' : Outline}

theorem written_append (tags more : List Tag) :
    written catalog unit (tags ++ more) =
      written catalog unit tags ++ written catalog unit more :=
  List.map_append

/-- Of two elements of a kind with the same children the first lines are different at most. -/
theorem exists_written {e f : Element} (hkind : f.kind = e.kind) (below : List Outline)
    (depth : Nat) :
    ∃ first first' inner,
      written catalog unit ((Outline.node e below).tags depth) = first :: inner ∧
      written catalog unit ((Outline.node f below).tags depth) = first' :: inner := by
  cases below with
  | nil => exact ⟨_, _, [], rfl, rfl⟩
  | cons o rest =>
    refine ⟨_, Tag.line catalog.componentOf unit (.opens f depth), _, rfl, ?_⟩
    simp [written, tags, Tag.line, hkind]

/-- Outlines one after the other, each with its lines. -/
def blocks (catalog : Catalog) (unit : String) (depth : Nat) (os : List Outline) :
    List (String × List String) :=
  os.map fun o => (o.top.id, written catalog unit (o.tags depth))

theorem flatMap_blocks (depth : Nat) (os : List Outline) :
    (blocks catalog unit depth os).flatMap Prod.snd = written catalog unit (allTags depth os) := by
  induction os with
  | nil => rfl
  | cons o rest ih =>
    rw [allTags, written_append, ← ih]
    rfl

theorem map_fst_blocks (depth : Nat) (os : List Outline) :
    (blocks catalog unit depth os).map Prod.fst = os.map fun o => o.top.id := by
  simp [blocks, Function.comp_def]

/-! ## Pages and their contexts -/

/-- A page whose markup is that of an outline in a context. -/
structure Renders (catalog : Catalog) (page : Page) (c : Context) (o : Outline) : Prop where
  linked : page.Linked
  drawn : page.DrawnAround c o
  shown : ∀ x ∈ (c.plug o).preorder, x.ShownBy catalog

namespace Renders

variable {host host' : Element} {below below' left right : List Outline} {b : Outline}

theorem mem_preorder_plug {x : Element} (hx : x ∈ o.preorder) : x ∈ (c.plug o).preorder := by
  rw [c.preorder_plug]
  exact List.mem_append_left _ (List.mem_append_right _ hx)

theorem shown_inner (h : Renders catalog page c o) : ∀ x ∈ o.preorder, x.ShownBy catalog :=
  fun x hx => h.shown x (mem_preorder_plug hx)

theorem kinds (h : Renders catalog page c o) :
    ∀ x ∈ (c.plug o).preorder, catalog.contains x.kind = true :=
  fun x hx => (h.shown x hx).kind

theorem takes_of_subset (h : Renders catalog page c o) {p : Outline} (hp : p.DrawnFrom page)
    (hsub : ∀ x ∈ p.preorder, x ∈ (c.plug o).preorder) (level : Nat) :
    Takes catalog unit page level p.top.id (written catalog unit (p.tags level)) := by
  obtain ⟨known, hknown, hkind⟩ := components_eq h.linked h.drawn.drawn h.drawn.root h.kinds
  have hlines := @linesFrom_eq _ _ _ unit h.linked _ hp (fun x hx => hkind x (hsub x hx)) level
  rw [firstFault?_eq_none_iff.2 fun x hx => (h.shown x (hsub x hx)).texts] at hlines
  exact ⟨known, hknown, hlines⟩

theorem takes (h : Renders catalog page c o) (level : Nat) :
    Takes catalog unit page level o.top.id (written catalog unit (o.tags level)) :=
  h.takes_of_subset h.drawn.inner (fun _ => mem_preorder_plug) level

theorem emits (h : Renders catalog page c o) (unit : String) (depth : Nat) :
    Emits catalog unit page depth (written catalog unit (c.tagsAhead depth) ++
      written catalog unit (o.tags (depth + c.depth)) ++
      written catalog unit (c.tagsBehind depth)) := by
  refine ⟨_, h.drawn.root, ?_⟩
  rw [← written_append, ← written_append, ← c.tags_plug]
  exact h.takes_of_subset h.drawn.drawn (fun _ hx => hx) depth

/-- What stands in the hole takes its tags. -/
theorem shows (h : Renders catalog page c o) (unit : String) (depth : Nat) :
    Shows catalog unit page depth o.top.id (depth + c.depth)
      (written catalog unit (c.tagsAhead depth))
      (written catalog unit (o.tags (depth + c.depth)))
      (written catalog unit (c.tagsBehind depth)) :=
  ⟨c, o, h.drawn, rfl, rfl, rfl, rfl, h.takes _, h.emits unit depth⟩

theorem child (h : Renders catalog page c (.node host (left ++ b :: right))) :
    Renders catalog page (c.child host left right) b where
  linked := h.linked
  drawn := h.drawn.child
  shown := by
    rw [c.plug_child]
    exact h.shown

/-- A child takes its lines between those of the children before and after it. -/
theorem shows_child (h : Renders catalog page c (.node host (left ++ b :: right)))
    (unit : String) (depth : Nat) :
    Shows catalog unit page depth b.top.id (depth + c.depth + 1)
      (written catalog unit (c.tagsAhead depth ++
        .opens host (depth + c.depth) :: allTags (depth + c.depth + 1) left))
      (written catalog unit (b.tags (depth + c.depth + 1)))
      (written catalog unit (allTags (depth + c.depth + 1) right ++
        .closes host (depth + c.depth) :: c.tagsBehind depth)) := by
  have hshows := h.child.shows unit depth
  rwa [c.depth_child, ← Nat.add_assoc, c.tagsAhead_child, c.tagsBehind_child] at hshows

theorem shown_host (h : Renders catalog page c (.node host below)) : host.ShownBy catalog :=
  h.shown_inner host List.mem_cons_self

theorem shown_below (h : Renders catalog page c (.node host below)) :
    ∀ x ∈ preorders below, x.ShownBy catalog :=
  fun x hx => h.shown_inner x (List.mem_cons_of_mem _ hx)

/-- An element is replaced with what hangs below it. -/
theorem redrawn (h : Renders catalog page c (.node host below)) (hl : other.Linked)
    (hd : other.DrawnAround c (.node host' below')) (hhost : host'.ShownBy catalog)
    (hbelow : ∀ x ∈ preorders below', x.ShownBy catalog) :
    Renders catalog other c (.node host' below') where
  linked := hl
  drawn := hd
  shown := by
    have hall := h.shown
    rw [c.preorder_plug, List.forall_mem_append, List.forall_mem_append] at hall ⊢
    exact ⟨⟨hall.1.1, List.forall_mem_cons.2 ⟨hhost, hbelow⟩⟩, hall.2⟩

/-- Look-ups that go alike in the hole go alike on the whole page. -/
theorem components_congr (h : Renders catalog page c o) (h' : Renders catalog other c o')
    (hinner : ∀ found, o'.preorder.foldlM (lookUp catalog) found =
      o.preorder.foldlM (lookUp catalog) found) :
    components catalog other = components catalog page := by
  simp only [components, h.drawn.root, h'.drawn.root,
    componentsFrom_eq catalog h.linked h.drawn.drawn,
    componentsFrom_eq catalog h'.linked h'.drawn.drawn, c.preorder_plug, List.foldlM_append,
    hinner]

/-! ## One edit -/

/-- Changing what an element says. -/
theorem retouched (h : Renders catalog page c (.node host below)) {f : Element → Element}
    (hf : ∀ e, (f e).id = e.id ∧ (f e).kind = e.kind ∧ (f e).children = e.children ∧
      (f e).parent = e.parent) (htexts : (f host).HasTexts) (unit : String) (depth : Nat) :
    Retouched catalog unit depth page (page.modify host.id f) host.id := by
  obtain ⟨hid, hkind, hchildren, -⟩ := hf host
  have hl := @Linked.modify page h.linked host.id f (fun e => (hf e).2.2.1) fun e => (hf e).2.2.2
  have h' := h.redrawn hl (h.drawn.modify h.linked hid hchildren)
    ⟨hkind ▸ h.shown_host.kind, htexts⟩ h.shown_below
  obtain ⟨first, first', inner, hfirst, hfirst'⟩ :=
    @exists_written catalog unit _ _ hkind below (depth + c.depth)
  have hshows := h.shows unit depth
  have hshows' := h'.shows unit depth
  rw [hfirst] at hshows
  rw [hfirst', top_node, hid] at hshows'
  refine ⟨⟨_, _, first, first', inner, _, hshows, hshows'⟩, fun options => ?_⟩
  -- A look-up reads the kind of an element and its id.
  have hcomponents := h.components_congr h' fun found => by
    simp [preorder, lookUp, hkind, hid]
  obtain ⟨known, hknown, -⟩ := components_eq h.linked h.drawn.drawn h.drawn.root h.kinds
  exact ⟨_, ⟨known, hknown, rfl⟩, known, hcomponents.trans hknown, rfl⟩

/-- Dropping a child with all below it. -/
theorem withdrawn (h : Renders catalog page c (.node host (left ++ b :: right)))
    (hp : page.Pruned b.top.id host.id other) (unit : String) (depth : Nat) :
    Withdrawn catalog unit depth page other b.top.id := by
  have hothers : ∀ x ∈ preorders (left ++ right), x.ShownBy catalog := by
    have hbelow := h.shown_below
    rw [preorders_append, preorders, List.forall_mem_append, List.forall_mem_append] at hbelow
    rw [preorders_append, List.forall_mem_append]
    exact ⟨hbelow.1, hbelow.2.2⟩
  have h' := h.redrawn (h.linked.pruned hp) (h.drawn.pruned h.linked rfl rfl hp)
    (h.shown_host.congr rfl rfl rfl) hothers
  obtain ⟨hhost, hc, -⟩ := h.drawn.inner
  have hlisted : b.top.id ∈ host.children := hc ▸ List.mem_map_of_mem (by simp)
  refine ⟨host.id, host, hhost, hlisted, ?_⟩
  have hshows' := h'.shows unit depth
  -- A parent that loses its only child is written in one line, without a closing tag.
  by_cases hempty : left ++ right = []
  · obtain ⟨rfl, rfl⟩ := List.append_eq_nil_iff.1 hempty
    rw [if_pos (by simpa using hc)]
    refine ⟨depth + c.depth, _, _, written catalog unit (b.tags (depth + c.depth + 1)), _, _, rfl,
      ?_, ?_, hshows'⟩
    · simpa [written, tags, allTags] using h.shows unit depth
    · simpa [written, allTags] using h.shows_child unit depth
  · have hne : host.children ≠ [b.top.id] := by
      intro heq
      rw [hc] at heq
      have hlength := congrArg List.length heq
      simp only [List.length_map, List.length_append, List.length_cons, List.length_nil] at hlength
      apply hempty
      rw [← List.length_eq_zero_iff, List.length_append]
      omega
    rw [if_neg hne]
    refine ⟨_, _, _, _, h.shows_child unit depth, ?_⟩
    have hemits := h'.emits unit depth
    rw [tags_of_ne_nil hempty, allTags_append] at hemits
    simpa [written] using hemits

/-- Hanging in, right after a child, what is written as the child is. -/
theorem repeated (h : Renders catalog page c (.node host (left ++ b :: right)))
    (hl : other.Linked) {part : Page} {p : Outline}
    (hg : page.Grafted part (some host.id) (some (left.length + 1)) p.top.id other)
    (hp : p.DrawnFrom other) (hshown : ∀ x ∈ p.preorder, x.ShownBy catalog) {unit : String}
    (hlines : ∀ level, written catalog unit (p.tags level) = written catalog unit (b.tags level))
    (depth : Nat) : Repeated catalog unit depth page other b.top.id p.top.id := by
  have hd := h.drawn.grafted h.linked rfl hg hp rfl
  rw [insertAt_after] at hd
  have hbelow : ∀ x ∈ preorders (left ++ b :: p :: right), x.ShownBy catalog := by
    have hall := h.shown_below
    simp only [preorders_append, preorders, List.forall_mem_append] at hall ⊢
    exact ⟨hall.1, hall.2.1, hshown, hall.2.2⟩
  have h' := h.redrawn hl hd (h.shown_host.congr rfl rfl rfl) hbelow
  simp only [written] at hlines
  have hfirst := h'.shows_child unit depth
  have hsecond := @shows_child _ _ _ _ (left ++ [b]) right p (by simpa using h') unit depth
  refine ⟨_, _, _, _, h.shows_child unit depth, ?_, ?_⟩
  · simpa [written, allTags, hlines] using hfirst
  · simpa [written, allTags, allTags_append, hlines] using hsecond

theorem takes_below (h : Renders catalog page c (.node host below)) {p : Outline}
    (hp : p ∈ below) (level : Nat) :
    Takes catalog unit page level p.top.id (written catalog unit (p.tags level)) := by
  apply h.takes_of_subset (allDrawnFrom_iff.1 h.drawn.inner.2.2 p hp)
  intro x hx
  exact mem_preorder_plug (List.mem_cons_of_mem _ (mem_preorders_iff.2 ⟨p, hp, hx⟩))

theorem shows_blocks (h : Renders catalog page c (.node host below)) (hne : below ≠ [])
    (unit : String) (depth : Nat) :
    Shows catalog unit page depth host.id (depth + c.depth)
      (written catalog unit (c.tagsAhead depth))
      (Tag.line catalog.componentOf unit (.opens host (depth + c.depth)) ::
        (blocks catalog unit (depth + c.depth + 1) below).flatMap Prod.snd ++
          [Tag.line catalog.componentOf unit (.closes host (depth + c.depth))])
      (written catalog unit (c.tagsBehind depth)) := by
  have hshows := h.shows unit depth
  rw [tags_of_ne_nil hne] at hshows
  rw [flatMap_blocks]
  simpa [written] using hshows

/-- Moving a child to another place among its siblings. -/
theorem reordered (h : Renders catalog page c (.node host (left ++ b :: right)))
    {index : Option Int} (hr : page.Rehung b.top.id host.id host.id index other) (unit : String)
    (depth : Nat) : Reordered catalog unit depth page other host.id := by
  have hperm : (insertAt index b (left ++ right)).Perm (left ++ b :: right) :=
    (insertAt_perm index b _).trans List.perm_middle.symm
  have hbelow : ∀ x ∈ preorders (insertAt index b (left ++ right)), x.ShownBy catalog := by
    intro x hx
    obtain ⟨p, hp, hxp⟩ := mem_preorders_iff.1 hx
    exact h.shown_below x (mem_preorders_iff.2 ⟨p, hperm.mem_iff.1 hp, hxp⟩)
  have h' := h.redrawn (h.linked.rehung hr) (h.drawn.rehung h.linked rfl rfl hr)
    (h.shown_host.congr rfl rfl rfl) hbelow
  have hne : insertAt index b (left ++ right) ≠ [] :=
    List.ne_nil_of_mem (hperm.mem_iff.2 (by simp : b ∈ _))
  refine ⟨host, _, _, _, _, _, _, h.drawn.inner.1, h'.drawn.inner.1,
    blocks catalog unit (depth + c.depth + 1) (left ++ b :: right),
    blocks catalog unit (depth + c.depth + 1) (insertAt index b (left ++ right)), ?_, ?_,
    hperm.map _, ?_, h.shows_blocks (by simp) unit depth, h'.shows_blocks hne unit depth⟩
  · rw [map_fst_blocks, ← h.drawn.inner.2.1]
  · rw [map_fst_blocks, ← h'.drawn.inner.2.1]
  · intro q hq
    obtain ⟨p, hp, rfl⟩ := List.mem_map.1 hq
    exact ⟨h.takes_below hp _, h'.takes_below (hperm.mem_iff.2 hp) _⟩

end Renders

/-! ## Every edit -/

theorem exists_renders (hl : page.Linked) (hk : page.Keyed)
    (hshown : ∀ {id e}, page.get? id = some e → e.ShownBy catalog) {id : String}
    {e : Element} (he : page.get? id = some e) :
    ∃ c below, Renders catalog page c (.node e below) := by
  obtain ⟨c, below, hd⟩ := hl.exists_drawnAround hk he
  exact ⟨c, below, hl, hd, fun x hx => hshown (drawn_of_mem_preorder hl hd.drawn hx).1⟩

theorem retouched_of_modify (hl : page.Linked) (hk : page.Keyed)
    (hshown : ∀ {id e}, page.get? id = some e → e.ShownBy catalog) {id : String}
    {e : Element} (he : page.get? id = some e) {f : Element → Element}
    (hf : ∀ e, (f e).id = e.id ∧ (f e).kind = e.kind ∧ (f e).children = e.children ∧
      (f e).parent = e.parent) (htexts : (page.modify id f).HasTexts) (unit : String)
    (depth : Nat) : Retouched catalog unit depth page (page.modify id f) id := by
  obtain ⟨c, below, h⟩ := exists_renders hl hk hshown he
  have hmodified : (page.modify id f).get? id = some (f e) := by
    rw [get?_modify, if_pos rfl, he]
    rfl
  cases hk he
  exact h.retouched hf (htexts _ _ hmodified) unit depth

theorem exists_renders_of_lists (hl : page.Linked) (hk : page.Keyed)
    (hshown : ∀ {id e}, page.get? id = some e → e.ShownBy catalog)
    {parent id : String} (hlist : page.Lists parent id) :
    ∃ host c left b right, host.id = parent ∧ b.top.id = id ∧
      Renders catalog page c (.node host (left ++ b :: right)) := by
  obtain ⟨host, hhost, hm⟩ := hlist
  obtain ⟨c, below, h⟩ := exists_renders hl hk hshown hhost
  obtain ⟨left, b, right, rfl, hid⟩ := exists_split h.drawn.inner hm
  exact ⟨host, c, left, b, right, hk hhost, hid, h⟩

/-- A duplicate is a copy that is put right after what it is a copy of. -/
theorem repeated_of_duplicate {draft after : Draft} (hl : draft.page.Linked)
    (hk : draft.page.Keyed) (ha : draft.ids.Ahead draft.page)
    (hshown : ∀ {id e}, draft.page.get? id = some e → e.ShownBy catalog)
    {id new : String} {plan : Session.Duplicate} (hplan : Session.planDuplicate draft id = .ok plan)
    (hrun : Draft.attach (some plan.parent) plan.nodes (some plan.index) draft = .ok new after)
    (unit : String) (depth : Nat) :
    Repeated catalog unit depth draft.page after.page id new := by
  rcases Session.planDuplicate_cases hl hk id with hno |
    ⟨parent, host, nodes, place, hhost, hplace, hcopy, hok⟩
  · exact absurd hplan hno.ne_ok
  cases hok.symm.trans hplan
  have hm : id ∈ host.children := by
    by_contra hnot
    rw [List.idxOf?_eq_none_iff.2 hnot] at hplace
    cases hplace
  obtain ⟨host', c, left, b, right, rfl, rfl, h⟩ :=
    exists_renders_of_lists hl hk hshown ⟨host, hhost, hm⟩
  cases hhost.symm.trans h.drawn.inner.1
  cases hplace.symm.trans (idxOf?_children hl h.drawn.inner)
  obtain ⟨hl', hk', name, part, hg, rfl, htwin⟩ := Draft.twins_of_attach hl hk ha hcopy hrun
  have hb := h.child.drawn.inner
  -- The copy is drawn as the outline of the original, each element in place of its twin.
  have htwins : ∀ e ∈ b.preorder, after.page.HasTwin name e := by
    intro e he
    obtain ⟨hget, hr⟩ := drawn_of_mem_preorder hl hb he
    exact htwin hr hget
  have hsame : ∀ e ∈ b.preorder, e.SameUnder name (after.page.twin name e) :=
    fun e he => (htwins e he).get?_twin.2
  have htop : (b.map (after.page.twin name)).top.id = name b.top.id := by
    rw [top_map, (htwins _ b.top_mem_preorder).id_twin hk']
  rw [← htop] at hg ⊢
  refine h.repeated hl' hg (drawnFrom_twins hk' hb htwins) ?_ ?_ depth
  · intro x hx
    rw [preorder_map] at hx
    obtain ⟨e, he, rfl⟩ := List.mem_map.1 hx
    exact (h.child.shown_inner e he).sameUnder (hsame e he)
  · intro level
    exact lines_map level fun e he => ⟨(hsame e he).kind, head_congr (hsame e he)⟩

/-- On a page that is a tree of known kinds, whose values have texts, and of any shape, edits that
are carried out change the markup in one place: changing props or style changes at most the first
line of the element, removing an element takes its lines out, duplicating one repeats its lines
right after them, and moving one among its siblings moves its lines among theirs. -/
theorem edits_local {draft : Draft} {checker : Catalog} (hk : draft.page.Keyed)
    (hp : draft.page.problems checker false = []) (ha : draft.ids.Ahead draft.page)
    (hkinds : ∀ {id e}, draft.page.get? id = some e → catalog.contains e.kind = true)
    (htexts : draft.page.HasTexts) (unit : String) (depth : Nat) :
    (∀ {id props after}, Draft.updateProps id props draft = .ok () after → after.page.HasTexts →
      Retouched catalog unit depth draft.page after.page id) ∧
    (∀ {id style after}, Draft.updateStyle id style draft = .ok () after → after.page.HasTexts →
      Retouched catalog unit depth draft.page after.page id) ∧
    (∀ {id ids after}, Draft.remove id draft = .ok ids after →
      Withdrawn catalog unit depth draft.page after.page id) ∧
    (∀ {id plan new after}, Session.planDuplicate draft id = .ok plan →
      Draft.attach (some plan.parent) plan.nodes (some plan.index) draft = .ok new after →
      Repeated catalog unit depth draft.page after.page id new) ∧
    (∀ {parent id index after}, draft.page.Lists parent id →
      Draft.move id parent index draft = .ok () after →
      Reordered catalog unit depth draft.page after.page parent) := by
  have hl := (problems_eq_nil_iff.1 hp).1.linked
  have hshown : ∀ {id e}, draft.page.get? id = some e → e.ShownBy catalog :=
    fun he => ⟨hkinds he, htexts _ _ he⟩
  refine ⟨?_, ?_, ?_, ?_, ?_⟩
  · intro id props after hrun hafter
    rcases Draft.updateProps_cases draft id props with hno | ⟨⟨e, he⟩, hok⟩
    · exact absurd hrun hno.ne_ok
    cases hok.symm.trans hrun
    refine retouched_of_modify hl hk hshown he ?_ hafter unit depth
    exact fun _ => ⟨rfl, rfl, rfl, rfl⟩
  · intro id style after hrun hafter
    rcases Draft.updateStyle_cases draft id style with hno | ⟨⟨e, he⟩, kept, -, hok⟩
    · exact absurd hrun hno.ne_ok
    cases hok.symm.trans hrun
    refine retouched_of_modify hl hk hshown he ?_ hafter unit depth
    exact fun _ => ⟨rfl, rfl, rfl, rfl⟩
  · intro id ids after hrun
    rcases Draft.remove_cases hl hk id with hno | ⟨ids', old, draft', hok, -, -, -, hpruned⟩
    · exact absurd hrun hno.ne_ok
    cases hok.symm.trans hrun
    obtain ⟨host, c, left, b, right, rfl, rfl, h⟩ :=
      exists_renders_of_lists hl hk hshown hpruned.listed
    exact h.withdrawn hpruned unit depth
  · intro id plan new after hplan hrun
    exact repeated_of_duplicate hl hk ha hshown hplan hrun unit depth
  · intro parent id index after hlist hrun
    rcases Draft.move_cases hl id parent index with hno | ⟨old, host, draft', hok, -, -, -, -, hr⟩
    · exact absurd hrun hno.ne_ok
    cases hok.symm.trans hrun
    cases hl.lists_unique hlist hr.listed
    obtain ⟨host', c, left, b, right, rfl, rfl, h⟩ := exists_renders_of_lists hl hk hshown hlist
    exact h.reordered hr unit depth

/-- The edits of a text that is alone in a container. -/
theorem edits_local_pair :
    let draft : Draft := ⟨.builtIn, { next := 3 }, Page.pair⟩
    let props : OrderedMap Value := .ofList [("content", .str "Hello")]
    (∃ after, Draft.updateProps "el_2" props draft = .ok () after ∧ after.page.HasTexts ∧
      Retouched .builtIn "  " 0 Page.pair after.page "el_2") ∧
    (∃ ids after, Draft.remove "el_2" draft = .ok ids after ∧
      Withdrawn .builtIn "  " 0 Page.pair after.page "el_2") ∧
    (∃ plan new after, Session.planDuplicate draft "el_2" = .ok plan ∧
      Draft.attach (some plan.parent) plan.nodes (some plan.index) draft = .ok new after ∧
      Repeated .builtIn "  " 0 Page.pair after.page "el_2" new) ∧
    ∃ after, Draft.move "el_2" "el_1" none draft = .ok () after ∧
      Reordered .builtIn "  " 0 Page.pair after.page "el_1" := by
  intro draft props
  have hkinds : ∀ p ∈ Page.pair.elements.entries, Catalog.builtIn.contains p.2.kind = true := by
    decide +kernel
  have hk : draft.page.Keyed := Page.pair_wellFormed.keyed
  have ha : draft.ids.Ahead draft.page :=
    @IdSource.ahead_of_advancePast {} Page.pair _ (by decide) rfl
  obtain ⟨hprops, -, hremove, hcopy, hmove⟩ :=
    edits_local hk (wellFormed_iff_problems.1 Page.pair_wellFormed).2 ha
      (fun {id e} he => hkinds (id, e) ((Page.pair.elements.mem_entries_iff id e).2 he))
      (by decide +kernel) "  " 0
  have htexts :
      (Page.pair.modify "el_2" fun e => { e with props := overlay e.props props }).HasTexts := by
    decide +kernel
  have hlist : Page.pair.Lists "el_1" "el_2" := ⟨_, rfl, List.mem_singleton_self _⟩
  refine ⟨⟨_, rfl, htexts, @hprops "el_2" props _ rfl htexts⟩, ?_, ?_,
    ⟨_, rfl, @hmove _ _ none _ hlist rfl⟩⟩
  · have hok : Results.succeeds (Draft.remove "el_2" draft) (fun _ _ => true) = true := by
      decide +kernel
    obtain ⟨ids, after, hrun, -⟩ := Results.exists_of_succeeds hok
    exact ⟨ids, after, hrun, hremove hrun⟩
  · have hplan : Session.planDuplicate draft "el_2" =
        .ok ⟨"el_1", [⟨"el_2", "text", .empty, .empty, [], none⟩], 1⟩ := by
      decide +kernel
    have hok : Results.succeeds (Draft.attach (some "el_1")
        [⟨"el_2", "text", .empty, .empty, [], none⟩] (some 1) draft) (fun _ _ => true) = true := by
      decide +kernel
    obtain ⟨new, after, hrun, -⟩ := Results.exists_of_succeeds hok
    exact ⟨_, new, after, hplan, hrun, hcopy hplan hrun⟩

end Markup

end PageBuilder
