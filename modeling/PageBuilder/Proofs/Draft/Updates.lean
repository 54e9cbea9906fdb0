import PageBuilder.Proofs.Archive.Content
import PageBuilder.Proofs.Draft.Edits
import PageBuilder.Proofs.Page.Positions

/-!
# How partial updates compose

Of what is under a name, a partial update that is accepted makes something that depends on nothing
else (`Part.makes`, `Part.get?_overlay`).  So how updates compose is settled name by name: a later
one wins, a repeated one does nothing, and updates that do not speak of the same name of the same
part of the same element change places.  Insertion layers what it is given over the defaults in this
way too, so it could as well leave that to updates.

Nothing of this asks for the page to be a tree.
-/

namespace PageBuilder

open Results

/-! ## Updates on top of each other -/

/-- A map with the entries of another one set, in their order. -/
def OrderedMap.onTop {α : Type} (m base : OrderedMap α) : OrderedMap α :=
  m.entries.foldl (fun m p => m.insert p.1 p.2) base

theorem OrderedMap.get?_onTop {α : Type} (m base : OrderedMap α) (key : String) :
    (m.onTop base).get? key = (m.get? key).or (base.get? key) := by
  have hreverse : m.entries.reverse.lookup key = m.get? key :=
    (get?_ofList m.entries key).symm.trans (get?_ofList_of_nodup m.nodup_keys key)
  rw [onTop, get?_foldl_insert, hreverse]

/-- The part of an element that a partial update is about. -/
inductive Part
  | props
  | style
deriving DecidableEq, Repr

namespace Part

variable {part : Part} {a b update kept : OrderedMap Value} {name : String} {value : Value}

def of : Part → Element → OrderedMap Value
  | props, e => e.props
  | style, e => e.style

def set : Part → OrderedMap Value → Element → Element
  | props, m, e => { e with props := m }
  | style, m, e => { e with style := m }

/-- Checks a partial update and gives what is kept of it. -/
def check : Part → OrderedMap Value → Except Failure (OrderedMap Value)
  | props, update => (fun _ => update) <$> Draft.checkProps update
  | style, update => Draft.checkStyle update

def Accepts (part : Part) (update : OrderedMap Value) : Prop :=
  ∃ kept, part.check update = .ok kept

theorem check_props_eq_ok_iff :
    props.check update = .ok kept ↔ Draft.checkProps update = .ok () ∧ update = kept := by
  rw [check]
  cases Draft.checkProps update <;> simp

/-- The part of an element, overlaid. -/
def write (part : Part) (kept : OrderedMap Value) (e : Element) : Element :=
  part.set (overlay (part.of e) kept) e

@[simp] theorem of_set (m : OrderedMap Value) (e : Element) : part.of (part.set m e) = m := by
  cases part <;> rfl

@[simp] theorem set_set (m n : OrderedMap Value) (e : Element) :
    part.set m (part.set n e) = part.set m e := by
  cases part <;> rfl

theorem set_congr {m n : OrderedMap Value} (h : m.Same n) (e : Element) :
    (part.set m e).SameContent (part.set n e) := by
  cases part with
  | props => exact ⟨rfl, rfl, h, .refl _, rfl, rfl⟩
  | style => exact ⟨rfl, rfl, .refl _, h, rfl, rfl⟩

/-! ### What is accepted -/

/-- A value that is accepted under a name. -/
def Takes : Part → String → Value → Prop
  | props, name, value => Props.checkOne name value = .ok ()
  | style, name, value => ∃ kept, Style.checkOne name value = .ok kept

theorem accepts_iff : part.Accepts update ↔ ∀ p ∈ update.entries, part.Takes p.1 p.2 := by
  cases part with
  | props => calc
      props.Accepts update ↔ Draft.checkProps update = .ok () :=
        ⟨fun ⟨_, hkept⟩ => (check_props_eq_ok_iff.1 hkept).1,
          fun h => ⟨update, check_props_eq_ok_iff.2 ⟨h, rfl⟩⟩⟩
      _ ↔ Props.check update = .ok () := Draft.checkProps_eq_ok_iff
      _ ↔ ∀ p ∈ update.entries, props.Takes p.1 p.2 := Props.checkEntries_eq_ok_iff _
  | style => calc
      style.Accepts update ↔ ∃ kept, Style.check update = .ok kept :=
        exists_congr fun _ => Draft.checkStyle_eq_ok_iff
      _ ↔ ∀ p ∈ update.entries, style.Takes p.1 p.2 := Style.exists_check_iff

/-- An update is accepted on top of another one that is accepted. -/
theorem Accepts.onTop (hb : part.Accepts b) (ha : part.Accepts a) : part.Accepts (b.onTop a) := by
  rw [accepts_iff] at *
  rintro ⟨name, value⟩ hm
  rw [OrderedMap.mem_entries_iff, OrderedMap.get?_onTop, Option.or_eq_some_iff] at hm
  rcases hm with hget | ⟨-, hget⟩
  · exact hb _ ((b.mem_entries_iff _ _).2 hget)
  · exact ha _ ((a.mem_entries_iff _ _).2 hget)

/-! ### What becomes of what is under a name -/

/-- What a value of an update leaves under its name: the deletion mark nothing, and an integer its
numeral if it is a style attribute. -/
def leaves : Part → Value → Option Value
  | _, .null => none
  | style, .int n => some (.str (Number.numeral n))
  | _, value => some value

theorem leaves_of_checkOne {k : Value} (h : Style.checkOne name value = .ok k) :
    (if k.isNull then none else some k) = style.leaves value := by
  unfold Style.checkOne at h
  split at h
  · cases h
  · split at h
    · cases h
      rfl
    · cases h
      rfl
    · split at h
      · cases h
        rfl
      · cases h
    · cases h

/-- What an update makes of what is under a name. -/
def makes (part : Part) (update : OrderedMap Value) (name : String) (old : Option Value) :
    Option Value :=
  match update.get? name with
  | none => old
  | some value => part.leaves value

theorem get?_overlay (h : part.check update = .ok kept) (base : OrderedMap Value) (name : String) :
    (overlay base kept).get? name = part.makes update name (base.get? name) := by
  rw [PageBuilder.get?_overlay, makes]
  cases part with
  | props =>
    obtain ⟨-, rfl⟩ := check_props_eq_ok_iff.1 h
    cases update.get? name with
    | none => rfl
    | some value => cases value <;> rfl
  | style =>
    have hstyle : Style.check update = .ok kept := Draft.checkStyle_eq_ok_iff.1 h
    rw [Style.get?_check hstyle]
    cases hget : update.get? name with
    | none => rfl
    | some value =>
      obtain ⟨k, hk⟩ := accepts_iff.1 ⟨kept, h⟩ _ ((update.mem_entries_iff _ _).2 hget)
      simp only [hk, Except.toOption]
      exact leaves_of_checkOne hk

/-- The later of two updates wins. -/
theorem makes_onTop (old : Option Value) :
    part.makes (b.onTop a) name old = part.makes b name (part.makes a name old) := by
  rw [makes, makes, makes, OrderedMap.get?_onTop]
  cases b.get? name <;> rfl

theorem makes_self (old : Option Value) :
    part.makes a name (part.makes a name old) = part.makes a name old := by
  rw [makes, makes]
  cases a.get? name <;> rfl

/-- Updates that do not both speak of a name. -/
theorem makes_comm (h : a.get? name = none ∨ b.get? name = none) (old : Option Value) :
    part.makes b name (part.makes a name old) = part.makes a name (part.makes b name old) := by
  simp only [makes]
  rcases h with h | h <;> rw [h]

/-! ### What becomes of an element -/

theorem write_onTop (ha : part.check a = .ok ka) (hb : part.check b = .ok kb)
    (h : part.check (b.onTop a) = .ok kept) (e : Element) :
    (part.write kb (part.write ka e)).SameContent (part.write kept e) := by
  simp only [write, of_set, set_set]
  apply set_congr
  intro name
  rw [get?_overlay hb, get?_overlay ha, get?_overlay h, makes_onTop]

theorem write_self (h : part.check a = .ok kept) (e : Element) :
    (part.write kept (part.write kept e)).SameContent (part.write kept e) := by
  simp only [write, of_set, set_set]
  apply set_congr
  intro name
  rw [get?_overlay h, get?_overlay h, makes_self]

theorem write_comm (ha : part.check a = .ok ka) (hb : part.check b = .ok kb)
    (h : a.keys.Disjoint b.keys) (e : Element) :
    (part.write kb (part.write ka e)).SameContent (part.write ka (part.write kb e)) := by
  simp only [write, of_set, set_set]
  apply set_congr
  intro name
  rw [get?_overlay hb, get?_overlay ha, get?_overlay ha, get?_overlay hb]
  apply makes_comm
  by_contra hboth
  simp only [not_or, ← ne_eq, Option.ne_none_iff_exists'] at hboth
  exact h ((a.mem_keys_iff name).2 hboth.1) ((b.mem_keys_iff name).2 hboth.2)

theorem write_comm_of_ne {other : Part} (h : part ≠ other) (ka kb : OrderedMap Value)
    (e : Element) : other.write kb (part.write ka e) = part.write ka (other.write kb e) := by
  cases part <;> cases other <;> first | rfl | exact absurd rfl h

end Part

/-! ## Drafts of the same content -/

/-- Equal but for the order of props and style attributes. -/
structure Draft.SameContent (s t : Draft) : Prop where
  catalog_eq : s.catalog = t.catalog
  ids_eq : s.ids = t.ids
  root_eq : s.page.root = t.page.root
  keys_eq : s.page.elements.keys = t.page.elements.keys
  /-- Under each id both have an element of the same content, or neither has any. -/
  elements : ∀ id, Option.Rel Element.SameContent (s.page.get? id) (t.page.get? id)

namespace Draft

variable {draft : Draft} {part other : Part} {id id' : String} {e : Element}
  {a b kept ka kb props style : OrderedMap Value} {f g : Element → Element}

/-- Two edits are both carried out, and come to the same content. -/
def Agree (draft : Draft) (x y : Action Unit) : Prop :=
  ∃ s t, x draft = .ok () s ∧ y draft = .ok () t ∧ s.SameContent t

/-! ## Changing an element -/

/-- Changes what is stored under an id. -/
def change (draft : Draft) (id : String) (f : Element → Element) : Draft :=
  { draft with page := draft.page.modify id f }

theorem get?_change (draft : Draft) (id x : String) (f : Element → Element) :
    (draft.change id f).page.get? x =
      if x = id then (draft.page.get? x).map f else draft.page.get? x :=
  Page.get?_modify ..

theorem eq_of_page {s t : Draft} (hcatalog : s.catalog = t.catalog) (hids : s.ids = t.ids)
    (hpage : s.page = t.page) : s = t := by
  cases s
  cases t
  cases hcatalog
  cases hids
  cases hpage
  rfl

theorem change_change (draft : Draft) (id : String) (f g : Element → Element) :
    (draft.change id f).change id g = draft.change id (g ∘ f) := by
  refine eq_of_page rfl rfl (Page.eq_of_keys rfl ?_ fun x => ?_)
  · simp only [change, Page.keys_modify]
  · rw [get?_change, get?_change, get?_change]
    by_cases hx : x = id <;> simp [hx]

/-- Changes of different elements change places. -/
theorem change_comm (h : id ≠ id') (draft : Draft) (f g : Element → Element) :
    (draft.change id f).change id' g = (draft.change id' g).change id f := by
  refine eq_of_page rfl rfl (Page.eq_of_keys rfl ?_ fun x => ?_)
  · simp only [change, Page.keys_modify]
  · simp only [get?_change]
    by_cases hx : x = id
    · have hx' : x ≠ id' := fun hid => h (hx.symm.trans hid)
      rw [if_neg hx', if_pos hx, if_pos hx, if_neg hx']
    · rw [if_neg hx, if_neg hx]

theorem sameContent_change (h : ∀ e, (f e).SameContent (g e)) (draft : Draft) (id : String) :
    (draft.change id f).SameContent (draft.change id g) where
  catalog_eq := rfl
  ids_eq := rfl
  root_eq := rfl
  keys_eq := by simp only [change, Page.keys_modify]
  elements x := by
    rw [get?_change, get?_change]
    cases draft.page.get? x with
    | none => split <;> exact .none
    | some e =>
      split
      · exact .some (h e)
      · exact .some (.refl e)

/-! ## Updates -/

/-- The edit that makes a partial update of a part. -/
def update : Part → String → OrderedMap Value → Action Unit
  | .props, id, update => updateProps id update
  | .style, id, update => updateStyle id update

/-- An element is stored under an id. -/
def Stores (draft : Draft) (id : String) : Prop :=
  ∃ e, draft.page.get? id = some e

theorem Stores.change (h : draft.Stores id) (x : String) (f : Element → Element) :
    (draft.change x f).Stores id := by
  obtain ⟨e, he⟩ := h
  rw [Stores, get?_change, he]
  split <;> exact ⟨_, rfl⟩

/-- An accepted update of an element writes what is kept over the part, and does nothing else. -/
theorem update_eq (hid : draft.Stores id) (h : part.check a = .ok kept) :
    update part id a draft = .ok () (draft.change id (part.write kept)) := by
  obtain ⟨e, he⟩ := hid
  have hrequire : draft.page.require id = .ok e := by
    rw [Page.require, he]
  cases part with
  | props =>
    obtain ⟨hcheck, rfl⟩ := Part.check_props_eq_ok_iff.1 h
    simp only [update, updateProps, hrequire, hcheck]
    rfl
  | style =>
    have hcheck : checkStyle a = .ok kept := h
    simp only [update, updateStyle, hrequire, hcheck]
    rfl

theorem update_update_eq (hid : draft.Stores id) (hid' : draft.Stores id')
    (ha : part.check a = .ok ka) (hb : other.check b = .ok kb) :
    (update part id a >>= fun _ => update other id' b) draft =
      .ok () ((draft.change id (part.write ka)).change id' (other.write kb)) := by
  rw [bind_of_ok (update_eq hid ha), update_eq (hid'.change id _) hb]

/-- Two updates of one element agree with any other edit that changes it in the same way. -/
theorem agree_of_write {x : Action Unit} (hid : draft.Stores id) (ha : part.check a = .ok ka)
    (hb : other.check b = .ok kb) (hx : x draft = .ok () (draft.change id f))
    (h : ∀ e, (other.write kb (part.write ka e)).SameContent (f e)) :
    draft.Agree (update part id a >>= fun _ => update other id b) x := by
  refine ⟨_, _, update_update_eq hid hid ha hb, hx, ?_⟩
  rw [change_change]
  exact sameContent_change h draft id

/-! ## Insertion -/

/-- An insertion with parts that are accepted is planned like one without any, and its element is
that one's with the parts written over the defaults. -/
theorem planInsert_eq (hprops : checkProps props = .ok ()) (hstyle : checkStyle style = .ok kept)
    (draft : Draft) (parent : Option String) (kind : String) :
    draft.planInsert parent kind props style =
      (fun e => Part.style.write kept (Part.props.write props e)) <$>
        draft.planInsert parent kind .empty .empty := by
  unfold planInsert
  cases draft.catalog.require kind none with
  | error failure => rfl
  | ok component =>
    cases draft.checkHost parent with
    | error failure => rfl
    | ok =>
      simp only [hprops, hstyle]
      cases hids : (draft.ids.exhausted? 1).isSome with
      | true => rfl
      | false => rfl

/-- Writing a part of a new element is the same before it is stored and after. -/
theorem change_place (draft : Draft) (e : Element) (index : Option Int) (part : Part)
    (kept : OrderedMap Value) :
    (draft.place e index).2.change (draft.place e index).1 (part.write kept) =
      (draft.place (part.write kept e) index).2 := by
  have hparent : (part.write kept e).parent = e.parent := by
    cases part <;> rfl
  refine eq_of_page rfl rfl (Page.eq_of_keys ?_ ?_ fun x => ?_)
  · simp only [place, change, Page.root_modify, hparent, Page.put]
  · simp only [place, change, Page.keys_modify, hparent, Page.put, OrderedMap.keys_insert]
  · rw [get?_change]
    simp only [place, Page.put, Page.get?, OrderedMap.get?_insert, hparent]
    cases part <;> split <;> rfl

theorem stores_place (draft : Draft) (e : Element) (index : Option Int) :
    (draft.place e index).2.Stores (draft.place e index).1 := by
  refine ⟨{ e with id := (draft.place e index).1 }, ?_⟩
  simp [place, Page.put, Page.get?, OrderedMap.get?_insert]

/-- Inserts an element with the defaults of its kind, and then updates its parts. -/
def insertThenUpdate (parent : Option String) (kind : String) (index : Option Int)
    (props style : OrderedMap Value) : Action String := do
  let id ← Draft.insert parent kind index .empty .empty
  updateProps id props
  updateStyle id style
  return id

theorem update_place (h : part.check a = .ok kept) (draft : Draft) (e : Element)
    (index : Option Int) :
    update part (draft.place e index).1 a (draft.place e index).2 =
      .ok () (draft.place (part.write kept e) index).2 := by
  rw [update_eq (stores_place draft e index) h, change_place]

/-- An insertion with parts that are accepted could leave them to updates. -/
theorem insert_eq_insertThenUpdate (hprops : Part.props.Accepts props)
    (hstyle : Part.style.Accepts style) (draft : Draft) (parent : Option String) (kind : String)
    (index : Option Int) :
    Draft.insert parent kind index props style draft =
      insertThenUpdate parent kind index props style draft := by
  obtain ⟨_, hkept⟩ := hprops
  obtain ⟨hcheck, rfl⟩ := Part.check_props_eq_ok_iff.1 hkept
  obtain ⟨kept, hstyle⟩ := hstyle
  have hplan := planInsert_eq hcheck hstyle draft parent kind
  rw [insertThenUpdate]
  cases hplain : draft.planInsert parent kind .empty .empty with
  | error failure =>
    have herror : Draft.insert parent kind index .empty .empty draft = .error failure draft := by
      rw [Draft.insert, hplain]
    rw [bind_of_error herror, Draft.insert, hplan, hplain]
    rfl
  | ok e =>
    have hplace : Draft.insert parent kind index .empty .empty draft =
        .ok (draft.place e index).1 (draft.place e index).2 := by
      rw [Draft.insert, hplain]
    rw [bind_of_ok hplace, Draft.insert, hplan, hplain]
    have hfirst : updateProps (draft.place e index).1 props (draft.place e index).2 = _ :=
      update_place hkept draft e index
    have hsecond : updateStyle (draft.place e index).1 style
        (draft.place (Part.props.write props e) index).2 = _ := update_place hstyle draft _ index
    rw [bind_of_ok hfirst, bind_of_ok hsecond]
    rfl

/-! ## Composition -/

/-- An update has changed a part of an element and nothing else. -/
structure Updated (part : Part) (id : String) (e : Element) (update : OrderedMap Value)
    (before after : Draft) : Prop where
  catalog_eq : after.catalog = before.catalog
  ids_eq : after.ids = before.ids
  root_eq : after.page.root = before.page.root
  keys_eq : after.page.elements.keys = before.page.elements.keys
  others : ∀ x, x ≠ id → after.page.get? x = before.page.get? x
  /-- What is under a name is up to the update if it speaks of the name, and as it was if not. -/
  stored : ∃ m, after.page.get? id = some (part.set m e) ∧
    ∀ name, m.get? name = part.makes update name ((part.of e).get? name)

theorem updated_change (he : draft.page.get? id = some e) (h : part.check a = .ok kept) :
    Updated part id e a draft (draft.change id (part.write kept)) where
  catalog_eq := rfl
  ids_eq := rfl
  root_eq := rfl
  keys_eq := Page.keys_modify ..
  others x hx := by rw [get?_change, if_neg hx]
  stored := by
    refine ⟨overlay (part.of e) kept, ?_, Part.get?_overlay h (part.of e)⟩
    rw [get?_change, if_pos rfl, he]
    rfl

/-- How partial updates of a draft compose. -/
structure UpdatesCompose (draft : Draft) : Prop where
  /-- An accepted update is carried out, on one part of one element. -/
  updated : ∀ {part id e a}, draft.page.get? id = some e → part.Accepts a →
    ∃ after, update part id a draft = .ok () after ∧ Updated part id e a draft after
  /-- Two updates are one by the second on top of the first. -/
  merged : ∀ {part id a b}, draft.Stores id → part.Accepts a → part.Accepts b →
    draft.Agree (do update part id a; update part id b) (update part id (b.onTop a))
  repeated : ∀ {part id a}, draft.Stores id → part.Accepts a →
    draft.Agree (do update part id a; update part id a) (update part id a)
  /-- Updates of different elements, of different parts or of different names change places. -/
  swapped : ∀ {part other id id' a b}, draft.Stores id → draft.Stores id' → part.Accepts a →
    other.Accepts b → id ≠ id' ∨ part ≠ other ∨ a.keys.Disjoint b.keys →
    draft.Agree (do update part id a; update other id' b) (do update other id' b; update part id a)
  /-- What an insertion is given could be left to updates, whether it is carried out or not. -/
  inserted : ∀ {props style}, Part.props.Accepts props → Part.style.Accepts style →
    ∀ parent kind index, Draft.insert parent kind index props style draft =
      insertThenUpdate parent kind index props style draft

theorem agree_swap (hid : draft.Stores id) (hid' : draft.Stores id') (ha : part.check a = .ok ka)
    (hb : other.check b = .ok kb) (h : id ≠ id' ∨ part ≠ other ∨ a.keys.Disjoint b.keys) :
    draft.Agree (do update part id a; update other id' b)
      (do update other id' b; update part id a) := by
  refine ⟨_, _, update_update_eq hid hid' ha hb, update_update_eq hid' hid hb ha, ?_⟩
  by_cases hne : id = id'
  · subst hne
    rw [change_change, change_change]
    refine sameContent_change (fun e => ?_) draft id
    by_cases hpart : part = other
    · subst hpart
      exact Part.write_comm ha hb ((h.resolve_left (· rfl)).resolve_left (· rfl)) e
    · rw [Function.comp, Part.write_comm_of_ne hpart]
      exact .refl _
  · rw [change_comm hne]
    exact sameContent_change (fun e => .refl _) _ id

/-- Partial updates compose, name by name: the later of two on the same element wins, a repeated one
does nothing more, and updates that have nothing to do with each other change places.  An insertion
with props and style attributes is one without any followed by updates. -/
theorem updates_compose (draft : Draft) : draft.UpdatesCompose where
  updated he := by
    rintro ⟨kept, hkept⟩
    exact ⟨_, update_eq ⟨_, he⟩ hkept, updated_change he hkept⟩
  merged hid ha hb := by
    obtain ⟨kept, hkept⟩ := hb.onTop ha
    obtain ⟨ka, ha⟩ := ha
    obtain ⟨kb, hb⟩ := hb
    exact agree_of_write hid ha hb (update_eq hid hkept) (Part.write_onTop ha hb hkept)
  repeated hid := by
    rintro ⟨kept, hkept⟩
    exact agree_of_write hid hkept hkept (update_eq hid hkept) (Part.write_self hkept)
  swapped hid hid' := by
    rintro ⟨ka, ha⟩ ⟨kb, hb⟩ h
    exact agree_swap hid hid' ha hb h
  inserted hprops hstyle parent kind index :=
    insert_eq_insertThenUpdate hprops hstyle draft parent kind index

/-- A heading without a text, with a level of its own and a style attribute given as a number.  Its
level is deleted, and a title and a text are set, of which the title is deleted again. -/
theorem updates_compose_heading :
    let draft : Draft := { catalog := .builtIn }
    let props : OrderedMap Value := .ofList [("text", .null), ("level", .str "h1")]
    let style : OrderedMap Value := .ofList [("fontSize", .null), ("padding", .int 4)]
    let a : OrderedMap Value := .ofList [("level", .null), ("title", .str "A"), ("text", .str "A")]
    let b : OrderedMap Value := .ofList [("title", .null), ("text", .str "B")]
    let both : OrderedMap Value :=
      .ofList [("level", .null), ("title", .null), ("text", .str "B")]
    ∃ after e, insertThenUpdate none "heading" none props style draft = .ok "el_1" after ∧
      after.page.get? "el_1" = some e ∧ e.props.entries = [("level", .str "h1")] ∧
      e.style.entries = [("fontWeight", .str "bold"), ("padding", .str "4")] ∧
      after.Agree (do update .props "el_1" a; update .props "el_1" b)
        (update .props "el_1" both) := by
  intro draft props style a b both
  have hrun : succeeds (Draft.insert none "heading" none props style draft) (fun id after =>
      id = "el_1" && (after.page.get? "el_1").any fun e =>
        e.props.entries = [("level", .str "h1")] &&
          e.style.entries = [("fontWeight", .str "bold"), ("padding", .str "4")]) = true := by
    decide +kernel
  obtain ⟨id, after, hinsert, hcheck⟩ := exists_of_succeeds hrun
  obtain ⟨hid, hany⟩ := Bool.and_eq_true_iff.1 hcheck
  obtain rfl := of_decide_eq_true hid
  obtain ⟨e, he, hparts⟩ := (Option.any_eq_true _ _).1 hany
  simp only [Bool.and_eq_true, decide_eq_true_eq] at hparts
  have hprops : Part.props.Accepts props := ⟨props, by decide +kernel⟩
  have hstyle : Part.style.Accepts style :=
    ⟨.ofList [("fontSize", .null), ("padding", .str "4")], by decide +kernel⟩
  rw [(updates_compose draft).inserted hprops hstyle] at hinsert
  have ha : Part.props.Accepts a := ⟨a, by decide +kernel⟩
  have hb : Part.props.Accepts b := ⟨b, by decide +kernel⟩
  have hboth : b.onTop a = both := by decide +kernel
  have hagree := (updates_compose after).merged ⟨e, he⟩ ha hb
  rw [hboth] at hagree
  exact ⟨after, e, hinsert, he, hparts.1, hparts.2, hagree⟩

end Draft

end PageBuilder
