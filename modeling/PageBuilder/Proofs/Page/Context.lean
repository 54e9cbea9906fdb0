import Mathlib.Data.List.InsertIdx
import PageBuilder.Proofs.Page.Outline
import PageBuilder.Proofs.Page.Reshape

/-!
# Around an element

A context is an outline with a hole: what is left of a page when an element and all below it are
taken out.  Every element of a tree stands in the hole of one (`Linked.exists_drawnAround`), and an
edit below that element leaves the context as it is (`DrawnAround.redrawn`), so that what an edit
does to a page has to be looked at below one element only.
-/

namespace PageBuilder

namespace Outline

/-- An outline with a hole. -/
inductive Context
  | hole
  /-- The hole is below one child of an element, between the outlines of the others. -/
  | node (e : Element) (left : List Outline) (inner : Context) (right : List Outline)

namespace Context

/-- The outline with something in the hole. -/
def plug : Context → Outline → Outline
  | .hole, o => o
  | .node e left inner right, o => .node e (left ++ inner.plug o :: right)

/-- The generations above the hole. -/
def depth : Context → Nat
  | .hole => 0
  | .node _ _ inner _ => inner.depth + 1

/-- The elements that come before those in the hole. -/
def ahead : Context → List Element
  | .hole => []
  | .node e left inner _ => e :: preorders left ++ inner.ahead

/-- The elements that come after those in the hole. -/
def behind : Context → List Element
  | .hole => []
  | .node _ _ inner right => inner.behind ++ preorders right

/-- The hole one generation further down, at one child of the element that stood in it. -/
def child (host : Element) (left right : List Outline) : Context → Context
  | .hole => .node host left .hole right
  | .node e before inner after => .node e before (inner.child host left right) after

theorem plug_child (c : Context) (host : Element) (left right : List Outline) (o : Outline) :
    (c.child host left right).plug o = c.plug (.node host (left ++ o :: right)) := by
  induction c with
  | hole => rfl
  | node e before inner after ih => simp [child, plug, ih]

theorem depth_child (c : Context) (host : Element) (left right : List Outline) :
    (c.child host left right).depth = c.depth + 1 := by
  induction c with
  | hole => rfl
  | node e before inner after ih => simp [child, depth, ih]

theorem preorder_plug (c : Context) (o : Outline) :
    (c.plug o).preorder = c.ahead ++ o.preorder ++ c.behind := by
  induction c with
  | hole => simp [plug, ahead, behind]
  | node e left inner right ih =>
    simp [plug, ahead, behind, preorder, preorders, preorders_append, ih]

/-- What stands in the hole shows in the outline around it by its id only. -/
theorem id_top_plug (c : Context) {o o' : Outline} (h : o'.top.id = o.top.id) :
    (c.plug o').top.id = (c.plug o).top.id := by
  cases c with
  | hole => exact h
  | node => rfl

end Context

mutual

theorem exists_context : ∀ {o : Outline} {x : Element}, x ∈ o.preorder →
    ∃ (c : Context) (below : List Outline), o = c.plug (.node x below)
  | .node e below, x, hx => by
    rcases List.mem_cons.1 hx with rfl | hx
    · exact ⟨.hole, below, rfl⟩
    · obtain ⟨left, c, below', right, rfl⟩ := exists_context_among hx
      exact ⟨.node e left c right, below', rfl⟩

theorem exists_context_among : ∀ {os : List Outline} {x : Element}, x ∈ preorders os →
    ∃ left c below right, os = left ++ Context.plug c (.node x below) :: right
  | o :: rest, x, hx => by
    rcases List.mem_append.1 hx with hx | hx
    · obtain ⟨c, below, rfl⟩ := exists_context hx
      exact ⟨[], c, below, rest, rfl⟩
    · obtain ⟨left, c, below, right, rfl⟩ := exists_context_among hx
      exact ⟨o :: left, c, below, right, rfl⟩

end

variable {page other : Page}

mutual

/-- Another page that has the same elements has the same outline. -/
theorem DrawnFrom.congr : ∀ {o : Outline}, o.DrawnFrom page →
    (∀ x ∈ o.preorder, other.get? x.id = some x) → o.DrawnFrom other
  | .node e below, hd, hsame => by
    simp only [DrawnFrom] at hd
    obtain ⟨-, hc, hall⟩ := hd
    obtain ⟨he, hbelow⟩ := List.forall_mem_cons.1 hsame
    exact ⟨he, hc, AllDrawnFrom.congr hall hbelow⟩

theorem AllDrawnFrom.congr : ∀ {os : List Outline}, AllDrawnFrom page os →
    (∀ x ∈ preorders os, other.get? x.id = some x) → AllDrawnFrom other os
  | [], _, _ => trivial
  | o :: rest, hd, hsame => by
    simp only [AllDrawnFrom] at hd
    obtain ⟨hfirst, hrest⟩ := List.forall_mem_append.1 hsame
    exact ⟨DrawnFrom.congr hd.1 hfirst, AllDrawnFrom.congr hd.2 hrest⟩

end

theorem DrawnFrom.of_plug {c : Context} {o : Outline} (h : (c.plug o).DrawnFrom page) :
    o.DrawnFrom page := by
  induction c with
  | hole => exact h
  | node e left inner right ih =>
    obtain ⟨-, -, hall⟩ := h
    exact ih (allDrawnFrom_iff.1 hall _ (List.mem_append_right _ List.mem_cons_self))

/-- What is in the hole can be changed if it keeps its id. -/
theorem DrawnFrom.plug {c : Context} {o o' : Outline} (h : (c.plug o).DrawnFrom page)
    (hahead : ∀ x ∈ c.ahead, other.get? x.id = some x)
    (hbehind : ∀ x ∈ c.behind, other.get? x.id = some x) (htop : o'.top.id = o.top.id)
    (ho : o'.DrawnFrom other) : (c.plug o').DrawnFrom other := by
  induction c with
  | hole => exact ho
  | node e left inner right ih =>
    obtain ⟨-, hc, hall⟩ := h
    obtain ⟨hahead, hinner⟩ := List.forall_mem_append.1 hahead
    obtain ⟨he, hleft⟩ := List.forall_mem_cons.1 hahead
    obtain ⟨hinner', hright⟩ := List.forall_mem_append.1 hbehind
    rw [allDrawnFrom_iff, List.forall_mem_append, List.forall_mem_cons] at hall
    obtain ⟨hdleft, hdinner, hdright⟩ := hall
    refine ⟨he, ?_, ?_⟩
    · rw [hc]
      simp [inner.id_top_plug htop]
    · rw [allDrawnFrom_iff, List.forall_mem_append, List.forall_mem_cons]
      refine ⟨?_, ih hdinner hinner hinner', ?_⟩
      · exact allDrawnFrom_iff.1 ((allDrawnFrom_iff.2 hdleft).congr hleft)
      · exact allDrawnFrom_iff.1 ((allDrawnFrom_iff.2 hdright).congr hright)

end Outline

namespace Page

open Outline

variable {page other : Page} {c : Context} {o o' : Outline}

/-- A page is a context with an outline in its hole. -/
structure DrawnAround (page : Page) (c : Context) (o : Outline) : Prop where
  drawn : (c.plug o).DrawnFrom page
  root : page.root = some (c.plug o).top.id

theorem DrawnAround.inner (h : page.DrawnAround c o) : o.DrawnFrom page :=
  h.drawn.of_plug

theorem Linked.exists_drawnAround (hl : page.Linked) (hk : page.Keyed) {id : String} {e : Element}
    (he : page.get? id = some e) :
    ∃ c below, page.DrawnAround c (.node e below) := by
  obtain ⟨d, hdepth⟩ := hl.deep he
  obtain ⟨root, hroot⟩ := hdepth.root_eq_some
  obtain ⟨r, hr, -⟩ := hl.root_stored hroot
  obtain ⟨o, hd, rfl, -⟩ := hl.exists_outline hk hr
  have hid : o.top.id = root := hk hr
  have hreach : page.Reaches o.top.id id := hid ▸ hl.reaches_of_atDepth hdepth hroot
  obtain ⟨x, hx, hxid⟩ := List.mem_map.1 ((mem_ids_preorder_iff hl hd).2 hreach)
  have hget := (drawn_of_mem_preorder hl hd hx).1
  rw [hxid] at hget
  cases he.symm.trans hget
  obtain ⟨c, below, rfl⟩ := exists_context hx
  exact ⟨c, below, hd, hid ▸ hroot⟩

/-- A child of what stands in the hole is in a hole of its own. -/
theorem DrawnAround.child {host : Element} {left right : List Outline}
    (h : page.DrawnAround c (.node host (left ++ o :: right))) :
    page.DrawnAround (c.child host left right) o := by
  constructor
  · rw [c.plug_child]
    exact h.drawn
  · rw [c.plug_child]
    exact h.root

/-- An element of the context does not lie in the hole. -/
theorem DrawnAround.apart (h : page.DrawnAround c o) (hl : page.Linked) {x : Element}
    (hx : x ∈ c.ahead ∨ x ∈ c.behind) :
    page.get? x.id = some x ∧ ¬ page.Reaches o.top.id x.id := by
  have hmem : x ∈ (c.plug o).preorder := by
    rw [c.preorder_plug]
    simp only [List.mem_append]
    tauto
  refine ⟨(drawn_of_mem_preorder hl h.drawn hmem).1, fun hr => ?_⟩
  have hin := (mem_ids_preorder_iff hl h.inner).2 hr
  have hn := nodup_preorder hl h.drawn
  rw [c.preorder_plug, List.map_append, List.map_append, List.nodup_append] at hn
  obtain ⟨hfirst, -, hlast⟩ := hn
  rcases hx with hx | hx
  · exact (List.nodup_append.1 hfirst).2.2 _ (List.mem_map_of_mem hx) _ hin rfl
  · exact hlast _ (List.mem_append_right _ hin) _ (List.mem_map_of_mem hx) rfl

/-- A page that differs below one element only has the same context around it. -/
theorem DrawnAround.redrawn (h : page.DrawnAround c o) (hl : page.Linked)
    (hroot : other.root = page.root)
    (hsame : ∀ {x e}, page.get? x = some e → ¬ page.Reaches o.top.id x → other.get? x = some e)
    (htop : o'.top.id = o.top.id) (ho : o'.DrawnFrom other) : other.DrawnAround c o' where
  drawn := by
    apply h.drawn.plug _ _ htop ho
    · intro x hx
      obtain ⟨he, hr⟩ := h.apart hl (Or.inl hx)
      exact hsame he hr
    · intro x hx
      obtain ⟨he, hr⟩ := h.apart hl (Or.inr hx)
      exact hsame he hr
  root := by rw [hroot, h.root, c.id_top_plug htop]

/-! ## Below the element -/

section Below

variable {host : Element} {below left right : List Outline} {b : Outline}

/-- What lies below an element is stored as it is drawn, and is not the element. -/
theorem stored_of_mem_preorders (hl : page.Linked) (hd : (Outline.node host below).DrawnFrom page)
    {x : Element} (hx : x ∈ preorders below) : page.get? x.id = some x ∧ x.id ≠ host.id := by
  have hmem : x ∈ (Outline.node host below).preorder := List.mem_cons_of_mem _ hx
  refine ⟨(drawn_of_mem_preorder hl hd hmem).1, fun heq => ?_⟩
  have hn := nodup_preorder hl hd
  rw [preorder, List.map_cons, List.nodup_cons] at hn
  exact hn.1 (heq ▸ List.mem_map_of_mem hx)

/-- Every child of an element has its outline among those below. -/
theorem exists_split (hd : (Outline.node host below).DrawnFrom page) {id : String}
    (hm : id ∈ host.children) : ∃ left b right, below = left ++ b :: right ∧ b.top.id = id := by
  obtain ⟨-, hc, -⟩ := hd
  rw [hc] at hm
  obtain ⟨b, hb, rfl⟩ := List.mem_map.1 hm
  obtain ⟨left, right, rfl⟩ := List.append_of_mem hb
  exact ⟨left, b, right, rfl, rfl⟩

theorem lists_of_mem (hd : (Outline.node host below).DrawnFrom page) {o : Outline}
    (ho : o ∈ below) : page.Lists host.id o.top.id := by
  obtain ⟨he, hc, -⟩ := hd
  exact ⟨host, he, hc ▸ List.mem_map_of_mem ho⟩

/-- What lies below the other children of an element does not lie below one of them. -/
theorem apart_of_mem_siblings (hl : page.Linked)
    (hd : (Outline.node host (left ++ b :: right)).DrawnFrom page) {x : Element}
    (hx : x ∈ preorders (left ++ right)) : ¬ page.Reaches b.top.id x.id := by
  intro hr
  obtain ⟨o, ho, hxo⟩ := mem_preorders_iff.1 hx
  have hmem : o ∈ left ++ b :: right := by
    simp only [List.mem_append, List.mem_cons] at ho ⊢
    tauto
  have hall := allDrawnFrom_iff.1 hd.2.2
  have hb : b ∈ left ++ b :: right := List.mem_append_right _ List.mem_cons_self
  have hro := (drawn_of_mem_preorder hl (hall o hmem) hxo).2
  have htop := hl.siblings_apart (lists_of_mem hd hmem) (lists_of_mem hd hb) hro hr
  -- Children of one element are listed once each.
  have hn := hl.nodup_children hd.1
  rw [hd.2.1, List.map_append, List.map_cons, List.nodup_middle, List.nodup_cons] at hn
  apply hn.1
  rw [← List.map_append, ← htop]
  exact List.mem_map_of_mem ho

theorem erase_children (hl : page.Linked)
    (hd : (Outline.node host (left ++ b :: right)).DrawnFrom page) :
    host.children.erase b.top.id = (left ++ right).map fun o => o.top.id := by
  have hn := hl.nodup_children hd.1
  rw [hd.2.1, List.map_append, List.map_cons, List.nodup_middle, List.nodup_cons] at hn
  have hleft : b.top.id ∉ left.map fun o => o.top.id := fun hm =>
    hn.1 (List.mem_append_left _ hm)
  rw [hd.2.1, List.map_append, List.map_cons, List.erase_append_right _ hleft,
    List.erase_cons_head, List.map_append]

theorem map_insertAt {α β : Type} (f : α → β) (index : Option Int) (x : α) (xs : List α) :
    (insertAt index x xs).map f = insertAt index (f x) (xs.map f) := by
  rw [insertAt, insertAt, List.map_insertIdx, List.length_map]

theorem insertAt_perm {α : Type} (index : Option Int) (x : α) (xs : List α) :
    (insertAt index x xs).Perm (x :: xs) :=
  List.perm_insertIdx x xs (clamp_le index xs.length)

theorem insertIdx_after {α : Type} (x y : α) (left right : List α) :
    (left ++ y :: right).insertIdx (left.length + 1) x = left ++ y :: x :: right := by
  induction left with
  | nil => rfl
  | cons z left ih => simpa using ih

/-- The position after one that is taken. -/
theorem insertAt_after {α : Type} (x y : α) (left right : List α) :
    insertAt (some (left.length + 1)) x (left ++ y :: right) = left ++ y :: x :: right := by
  have hclamp : clamp (some (left.length + 1)) (left ++ y :: right).length = left.length + 1 := by
    simp only [clamp, List.length_append, List.length_cons]
    omega
  rw [insertAt, hclamp, insertIdx_after]

/-- The position of a child is the number of those before it. -/
theorem idxOf?_children (hl : page.Linked)
    (hd : (Outline.node host (left ++ b :: right)).DrawnFrom page) :
    host.children.idxOf? b.top.id = some left.length := by
  have hn := hl.nodup_children hd.1
  rw [hd.2.1, List.map_append, List.map_cons] at hn ⊢
  have hbefore : ∀ x ∈ left.map fun o => o.top.id, (x == b.top.id) = false := by
    intro x hx
    have hne := (List.nodup_append.1 hn).2.2 x hx _ List.mem_cons_self
    simpa using hne
  rw [List.idxOf?, List.findIdx?_append, List.findIdx?_eq_none_iff.2 hbefore, List.findIdx?_cons]
  simp

theorem mem_preorders_insertAt {index : Option Int} {o : Outline} {os : List Outline}
    {x : Element} :
    x ∈ preorders (insertAt index o os) ↔ x ∈ o.preorder ∨ x ∈ preorders os := by
  simp only [mem_preorders_iff, (insertAt_perm index o os).mem_iff, List.mem_cons,
    exists_eq_or_imp]

end Below

/-! ## Edits below an element -/

section Edits

variable {host : Element} {below left right : List Outline} {b : Outline}

/-- Changing what an element says. -/
theorem DrawnAround.modify (h : page.DrawnAround c (.node host below)) (hl : page.Linked)
    {f : Element → Element} (hid : (f host).id = host.id)
    (hchildren : (f host).children = host.children) :
    (page.modify host.id f).DrawnAround c (.node (f host) below) := by
  obtain ⟨he, hc, hall⟩ := h.inner
  refine h.redrawn hl (root_modify page host.id f) ?_ hid ⟨?_, hchildren.trans hc, hall.congr ?_⟩
  · intro x e hx hr
    have hne : x ≠ host.id := by
      rintro rfl
      exact hr .refl
    rw [get?_modify, if_neg hne, hx]
  · rw [hid, get?_modify, if_pos rfl, he]
    rfl
  · intro x hx
    obtain ⟨hget, hne⟩ := stored_of_mem_preorders hl h.inner hx
    rw [get?_modify, if_neg hne, hget]

/-- Dropping a child with all below it. -/
theorem DrawnAround.pruned (h : page.DrawnAround c (.node host (left ++ b :: right)))
    (hl : page.Linked) {top parent : String} (htop : b.top.id = top) (hparent : host.id = parent)
    (hp : page.Pruned top parent other) :
    other.DrawnAround c
      (.node { host with children := host.children.erase top } (left ++ right)) := by
  subst htop hparent
  refine h.redrawn hl hp.root ?_ rfl ⟨hp.get?_parent h.inner.1, erase_children hl h.inner, ?_⟩
  · intro x e hx hr
    have hbelow : ¬ page.Reaches b.top.id x := fun hb => hr (.head hp.listed hb)
    rw [hp.get?_other hbelow fun heq => hr (heq ▸ .refl), hx]
  · have hall := h.inner.2.2
    rw [allDrawnFrom_iff, List.forall_mem_append, List.forall_mem_cons] at hall
    have hothers : AllDrawnFrom page (left ++ right) := by
      rw [allDrawnFrom_iff, List.forall_mem_append]
      exact ⟨hall.1, hall.2.2⟩
    apply hothers.congr
    intro x hx
    have hmem : x ∈ preorders (left ++ b :: right) := by
      rw [preorders_append, List.mem_append] at hx ⊢
      exact hx.imp_right (List.mem_append_right _)
    obtain ⟨hget, hne⟩ := stored_of_mem_preorders hl h.inner hmem
    rw [hp.get?_other (apart_of_mem_siblings hl h.inner hx) hne, hget]

/-- Moving a child to another place among its siblings. -/
theorem DrawnAround.rehung (h : page.DrawnAround c (.node host (left ++ b :: right)))
    (hl : page.Linked) {id target : String} {index : Option Int} (hid : b.top.id = id)
    (htarget : host.id = target) (hr : page.Rehung id target target index other) :
    other.DrawnAround c (.node
      { host with children := insertAt index id (host.children.erase id) }
      (insertAt index b (left ++ right))) := by
  subst hid htarget
  have hb : b ∈ left ++ b :: right := List.mem_append_right _ List.mem_cons_self
  have hdb : b.DrawnFrom page := allDrawnFrom_iff.1 h.inner.2.2 b hb
  -- The parent stays the same, so that of all elements only the host is another one after.
  have hother {x : String} {e : Element} (hx : page.get? x = some e) (hne : x ≠ host.id) :
      other.get? x = some e := by
    by_cases hmoved : x = b.top.id
    · subst hmoved
      have hparent := hl.parent_of_lists hr.listed hx
      rw [hr.get?_moved hx, ← hparent]
    · rw [hr.get?_other hx hmoved, if_neg hne, if_neg hne]
  have hne : host.id ≠ b.top.id := fun heq =>
    hl.not_reaches_of_lists hr.listed (heq ▸ .refl)
  refine h.redrawn hl hr.root ?_ rfl ⟨?_, ?_, ?_⟩
  · intro x e hx hreach
    exact hother hx fun heq => hreach (heq ▸ .refl)
  · rw [hr.get?_other h.inner.1 hne, if_pos rfl, if_pos rfl]
  · rw [map_insertAt, ← erase_children hl h.inner]
  · refine AllDrawnFrom.congr (?_ : AllDrawnFrom page _) ?_
    · have hall := allDrawnFrom_iff.1 h.inner.2.2
      rw [allDrawnFrom_iff]
      intro o ho
      apply hall
      rw [(insertAt_perm index b _).mem_iff, List.mem_cons, List.mem_append] at ho
      simp only [List.mem_append, List.mem_cons]
      tauto
    · intro x hx
      have hmem : x ∈ preorders (left ++ b :: right) := by
        rw [mem_preorders_insertAt, preorders_append, List.mem_append] at hx
        rw [preorders_append, preorders, List.mem_append, List.mem_append]
        tauto
      obtain ⟨hget, hnhost⟩ := stored_of_mem_preorders hl h.inner hmem
      exact hother hget hnhost

/-- Hanging in a tree below an element. -/
theorem DrawnAround.grafted (h : page.DrawnAround c (.node host below)) (hl : page.Linked)
    {part : Page} {parent top : String} {index : Option Int} (hparent : host.id = parent)
    (hg : page.Grafted part (some parent) index top other) {p : Outline}
    (hp : p.DrawnFrom other) (htop : p.top.id = top) :
    other.DrawnAround c (.node { host with children := insertAt index top host.children }
      (insertAt index p below)) := by
  subst hparent htop
  have hother {x : String} {e : Element} (hx : page.get? x = some e) (hne : x ≠ host.id) :
      other.get? x = some e := by
    rw [hg.get?_page (hg.not_part hx) fun heq => hne (Option.some.inj heq).symm, hx]
  refine h.redrawn hl hg.root ?_ rfl ⟨hg.get?_host h.inner.1 rfl, ?_, ?_⟩
  · intro x e hx hr
    exact hother hx fun heq => hr (heq ▸ .refl)
  · rw [map_insertAt, ← h.inner.2.1]
  · have hbelow : AllDrawnFrom other below := by
      apply h.inner.2.2.congr
      intro x hx
      obtain ⟨hget, hne⟩ := stored_of_mem_preorders hl h.inner hx
      exact hother hget hne
    rw [allDrawnFrom_iff] at hbelow ⊢
    intro o ho
    rcases List.mem_cons.1 ((insertAt_perm index p below).mem_iff.1 ho) with rfl | ho
    · exact hp
    · exact hbelow o ho

end Edits

end Page

end PageBuilder
