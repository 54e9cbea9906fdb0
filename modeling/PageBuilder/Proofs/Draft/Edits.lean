import PageBuilder.Draft.Script
import PageBuilder.Proofs.Draft.Copies
import PageBuilder.Proofs.Page.Attributes
import PageBuilder.Proofs.Page.Integrity
import PageBuilder.Proofs.Results

/-!
# What edits do

One lemma for each edit says everything it can come to on a page that is a tree: it is turned down,
and then nothing has changed, or it is carried out, and then the page has been reshaped in one of
the ways of `Proofs.Page.Reshape`.  Nothing else can happen: the look-ups that the edits make on the
way find what they look for.  Only when the ids do not last for a copy, those drawn before are gone
(`attach_cases`).

An edit is turned down with a reason that has to do with the edit, or for want of a text: the values
it is given cannot all be written, and the message or the style attribute would have to show one of
them, or the next id cannot be written.
-/

namespace PageBuilder

/-! ## Reasons to turn an edit down -/

/-- A family belongs to a wider one, or is that one. -/
def Family.Within (family wide : Family) : Prop :=
  Relation.ReflTransGen (fun f g => f.wider? = some g) family wide

/-- A reason to turn an edit down. -/
def Rejection.OfEdit (reason : Rejection) : Prop :=
  reason.family.Within .edit ∨ reason.family = .unknownKind

/-- Rejections of the families right below that of edits. -/
theorem Rejection.ofEdit_of_wider {reason : Rejection}
    (h : reason.family.wider? = some .edit) : reason.OfEdit :=
  Or.inl (.single h)

section Checks

variable {α β : Type} {result : Except Failure α} {unwritten : TextFault → Prop}

/-- A check ends with a reason to turn the edit down. -/
def Rejected (result : Except Failure α) : Prop :=
  ∃ reason : Rejection, result = .error (.rejected reason) ∧ reason.OfEdit

theorem rejected_error {reason : Rejection} (h : reason.OfEdit) :
    Rejected (.error (.rejected reason) : Except Failure α) :=
  ⟨reason, rfl, h⟩

theorem Rejected.ne_ok (h : Rejected result) {a : α} : result ≠ .ok a := by
  obtain ⟨reason, rfl, -⟩ := h
  exact nofun

theorem Rejected.bind (h : Rejected result) (f : α → Except Failure β) :
    Rejected (result >>= f) := by
  obtain ⟨reason, rfl, hr⟩ := h
  exact ⟨reason, rfl, hr⟩

/-- A check turns the edit down: with a reason, or for want of a text that cannot be had. -/
def Refused (unwritten : TextFault → Prop) (result : Except Failure α) : Prop :=
  Rejected result ∨ ∃ fault, result = .error (.noText fault) ∧ unwritten fault

theorem Rejected.refused (h : Rejected result) : Refused unwritten result :=
  Or.inl h

theorem Refused.ne_ok (h : Refused unwritten result) {a : α} : result ≠ .ok a := by
  rcases h with h | ⟨fault, rfl, -⟩
  · exact h.ne_ok
  · exact nofun

theorem Refused.bind (h : Refused unwritten result) (f : α → Except Failure β) :
    Refused unwritten (result >>= f) := by
  rcases h with h | ⟨fault, rfl, hf⟩
  · exact Or.inl (h.bind f)
  · exact Or.inr ⟨fault, rfl, hf⟩

theorem Refused.mono {wider : TextFault → Prop} (h : Refused unwritten result)
    (himp : ∀ fault, unwritten fault → wider fault) : Refused wider result :=
  h.imp_right fun ⟨fault, heq, hf⟩ => ⟨fault, heq, himp fault hf⟩

/-- What a check that fails is followed by fails in the same way. -/
theorem Refused.of_error {other : Except Failure β} (h : Refused unwritten result)
    (heq : ∀ failure, result = .error failure → other = .error failure) :
    Refused unwritten other := by
  rcases h with ⟨reason, h, hr⟩ | ⟨fault, h, hf⟩
  · exact Or.inl ⟨reason, heq _ h, hr⟩
  · exact Or.inr ⟨fault, heq _ h, hf⟩

end Checks

/-- The props are refused with a fault that shows a value without a text. -/
def Props.LacksText (props : OrderedMap Value) (fault : TextFault) : Prop :=
  ∃ refused, Props.check props = .error refused ∧ refused.textFault? = some fault

/-- A style attribute is refused for want of its text, or with a fault that shows a value without
one. -/
def Style.LacksText (style : OrderedMap Value) (fault : TextFault) : Prop :=
  ∃ refused, Style.check style = .error refused ∧ refused.textFault? = some fault

/-! ## Kinds of a catalog -/

theorem Catalog.require_eq_ok_iff {catalog : Catalog} {kind : String} {element : Option String}
    {component : Component} :
    catalog.require kind element = .ok component ↔ catalog.get? kind = some component := by
  unfold Catalog.require
  cases catalog.get? kind <;> simp

theorem Catalog.require_unknown {catalog : Catalog} {kind : String}
    (h : catalog.contains kind = false) (element : Option String) :
    catalog.require kind element = .error (.rejected (.unknownKind kind element)) := by
  have hnone : catalog.get? kind = none :=
    Option.isNone_iff_eq_none.1 (Option.isSome_eq_false_iff.1 h)
  rw [Catalog.require, hnone]

theorem Catalog.contains_iff_get? {catalog : Catalog} {kind : String} :
    catalog.contains kind = true ↔ ∃ component, catalog.get? kind = some component :=
  Option.isSome_iff_exists

theorem Catalog.orBuiltIn_of_get? {catalog : Catalog} {kind : String} {component : Component}
    (h : catalog.get? kind = some component) : catalog.orBuiltIn = catalog := by
  apply orBuiltIn_eq
  have hm := (catalog.components.mem_entries_iff _ _).2 h
  rw [OrderedMap.isEmpty, List.isEmpty_eq_false_iff]
  exact List.ne_nil_of_mem hm

namespace Draft

open Page

variable {draft : Draft}

/-- An insertion wants a text that is not to be had: of the props or the style it is given, if they
are refused, or of the number of the next id. -/
def InsertLacksText (draft : Draft) (props style : OrderedMap Value) (fault : TextFault) : Prop :=
  Props.LacksText props fault ∨ Style.LacksText style fault ∨
    (Number.fits draft.ids.next = false ∧ fault = .longInteger)

/-- An edit wants a text that is not to be had. -/
def Edit.LacksText (draft : Draft) (fault : TextFault) : Edit → Prop
  | .insert _ _ _ props style => draft.InsertLacksText props style fault
  | .updateProps _ props => Props.LacksText props fault
  | .updateStyle _ style => Style.LacksText style fault
  | .attach _ nodes _ => ∃ node ∈ nodes, Style.LacksText node.style fault
  | _ => False

section TurnedDown

variable {α : Type} {action : Action α} {unwritten : TextFault → Prop}

/-- An edit is turned down and leaves the draft as it was. -/
def TurnedDown (unwritten : TextFault → Prop) (action : Action α) (draft : Draft) : Prop :=
  (∃ reason : Rejection, action draft = .error (.rejected reason) draft ∧ reason.OfEdit) ∨
    ∃ fault, action draft = .error (.noText fault) draft ∧ unwritten fault

theorem TurnedDown.ne_ok (h : TurnedDown unwritten action draft) {a : α} {after : Draft} :
    action draft ≠ .ok a after := by
  rcases h with ⟨reason, herr, -⟩ | ⟨fault, herr, -⟩
  all_goals
    rw [herr]
    exact nofun

/-- An edit whose checks turn it down does nothing else. -/
theorem turnedDown_of_refused {β : Type} {result : Except Failure β} (h : Refused unwritten result)
    (hrun : ∀ failure, result = .error failure → action draft = .error failure draft) :
    TurnedDown unwritten action draft := by
  rcases h with ⟨reason, herr, hr⟩ | ⟨fault, herr, hf⟩
  · exact Or.inl ⟨reason, hrun _ herr, hr⟩
  · exact Or.inr ⟨fault, hrun _ herr, hf⟩

end TurnedDown

/-! ## Checks -/

/-- An element that is not there is reported. -/
theorem require_cases (page : Page) (id : String) :
    Rejected (page.require id) ∨ ∃ e, page.get? id = some e ∧ page.require id = .ok e := by
  unfold Page.require
  cases he : page.get? id with
  | none => exact Or.inl (rejected_error (Rejection.ofEdit_of_wider rfl))
  | some e => exact Or.inr ⟨e, rfl, rfl⟩

/-- And so is an unknown kind. -/
theorem requireKind_cases (catalog : Catalog) (kind : String) (element : Option String) :
    Rejected (catalog.require kind element) ∨
      ∃ component, catalog.get? kind = some component ∧
        catalog.require kind element = .ok component := by
  unfold Catalog.require
  cases hc : catalog.get? kind with
  | none => exact Or.inl (rejected_error (Or.inr rfl))
  | some component => exact Or.inr ⟨component, rfl, rfl⟩

/-- A place for new elements: an empty page, or an element of a kind that holds children. -/
def CanHost (draft : Draft) (parent : Option String) : Prop :=
  (parent = none ∧ draft.page.root = none) ∨
    ∃ id e, parent = some id ∧ draft.page.get? id = some e ∧ draft.catalog.isContainer e.kind = true

theorem CanHost.isContainer {draft : Draft} {id : String} {e : Element}
    (h : draft.CanHost (some id)) (he : draft.page.get? id = some e) :
    draft.catalog.isContainer e.kind = true := by
  rcases h with ⟨hn, -⟩ | ⟨_, _, ⟨⟩, he', hc⟩
  · cases hn
  · cases he.symm.trans he'
    exact hc

/-- A place that is none is reported, too. -/
theorem checkHost_cases (draft : Draft) (parent : Option String) :
    Rejected (draft.checkHost parent) ∨
      draft.CanHost parent ∧ draft.checkHost parent = .ok () := by
  cases parent with
  | none =>
    cases hr : draft.page.root with
    | none => exact Or.inr ⟨Or.inl ⟨rfl, hr⟩, by simp [checkHost, hr]⟩
    | some root =>
      simp only [checkHost, hr]
      exact Or.inl (rejected_error (Rejection.ofEdit_of_wider rfl))
  | some id =>
    cases he : draft.page.get? id with
    | none =>
      simp only [checkHost, he]
      exact Or.inl (rejected_error (Rejection.ofEdit_of_wider rfl))
    | some e =>
      by_cases hc : draft.catalog.isContainer e.kind = true
      · exact Or.inr ⟨Or.inr ⟨id, e, rfl, he, hc⟩, by simp [checkHost, he, hc]⟩
      · simp only [checkHost, he, if_neg hc]
        exact Or.inl (rejected_error (Rejection.ofEdit_of_wider rfl))

theorem checkProps_eq_ok_iff {props : OrderedMap Value} :
    checkProps props = .ok () ↔ Props.check props = .ok () := by
  unfold checkProps
  cases Props.check props <;> simp [Except.mapError]

/-- Refused props are reported, if the report can be written. -/
theorem checkProps_cases (props : OrderedMap Value) :
    Refused (Props.LacksText props) (checkProps props) ∨ checkProps props = .ok () := by
  unfold checkProps
  cases h : Props.check props with
  | ok => exact Or.inr rfl
  | error refused =>
    left
    cases hfault : refused.textFault? with
    | some fault =>
      exact Or.inr ⟨fault, by simp only [Except.mapError, Failure.ofProp, hfault], refused, h,
        hfault⟩
    | none =>
      exact Or.inl ⟨.prop refused, by simp only [Except.mapError, Failure.ofProp, hfault],
        Rejection.ofEdit_of_wider rfl⟩

theorem checkStyle_eq_ok_iff {style kept : OrderedMap Value} :
    checkStyle style = .ok kept ↔ Style.check style = .ok kept := by
  unfold checkStyle
  cases Style.check style <;> simp [Except.mapError]

/-- Style attributes that are kept are of known categories. -/
theorem checkStyle_cases (style : OrderedMap Value) :
    Refused (Style.LacksText style) (checkStyle style) ∨ ∃ kept, checkStyle style = .ok kept ∧
      (∀ category ∈ style.keys, Style.isKnown category = true) ∧
      ∀ category ∈ kept.keys, Style.isKnown category = true := by
  unfold checkStyle
  cases h : Style.check style with
  | error refused =>
    left
    cases hfault : refused.textFault? with
    | some fault =>
      exact Or.inr ⟨fault, by simp only [Except.mapError, Failure.ofStyle, hfault], refused, h,
        hfault⟩
    | none =>
      refine Or.inl ⟨.style refused, by simp only [Except.mapError, Failure.ofStyle, hfault],
        Rejection.ofEdit_of_wider ?_⟩
      cases refused <;> rfl
  | ok kept => exact Or.inr ⟨kept, rfl, Style.known_of_check h⟩

/-- An overlay sets nothing that neither the base nor the update sets. -/
theorem mem_keys_of_overlay {base update : OrderedMap Value} {key : String}
    (h : key ∈ (overlay base update).keys) : key ∈ base.keys ∨ key ∈ update.keys := by
  obtain ⟨value, hv⟩ := (OrderedMap.mem_keys_iff _ _).1 h
  rw [get?_overlay] at hv
  cases hu : update.get? key with
  | none =>
    rw [hu] at hv
    exact Or.inl ((OrderedMap.mem_keys_iff _ _).2 ⟨value, hv⟩)
  | some v => exact Or.inr ((OrderedMap.mem_keys_iff _ _).2 ⟨v, hu⟩)

/-! ## Insertion -/

/-- An element without children, as an insertion makes it. -/
def fresh (id kind : String) (props style : OrderedMap Value) (parent : Option String) : Element :=
  ⟨id, kind, props, style, [], parent⟩

/-- One check after the other turns an insertion down, or all of them pass. -/
theorem planInsert_cases (draft : Draft) (parent : Option String) (kind : String)
    (props style : OrderedMap Value) :
    Refused (draft.InsertLacksText props style) (draft.planInsert parent kind props style) ∨
      ∃ component kept, draft.catalog.get? kind = some component ∧ draft.CanHost parent ∧
        (∀ category ∈ kept.keys, Style.isKnown category = true) ∧
        draft.ids.exhausted? 1 = none ∧
        draft.planInsert parent kind props style = .ok (fresh "" kind
          (overlay component.props props) (overlay component.style kept) parent) := by
  unfold planInsert
  rcases requireKind_cases draft.catalog kind none with hkind | ⟨component, hc, hkind⟩
  · exact Or.inl (hkind.bind _).refused
  rcases checkHost_cases draft parent with hplace | ⟨hhost, hplace⟩
  · simp only [hkind]
    exact Or.inl (hplace.bind _).refused
  rcases checkProps_cases props with hprops | hprops
  · simp only [hkind, hplace]
    exact Or.inl ((hprops.bind _).mono fun _ => Or.inl)
  rcases checkStyle_cases style with hstyle | ⟨kept, hstyle, -, hk⟩
  · simp only [hkind, hplace, hprops]
    exact Or.inl ((hstyle.bind _).mono fun _ hf => Or.inr (Or.inl hf))
  simp only [hkind, hplace, hprops, hstyle, Results.ok_bind]
  cases hids : draft.ids.exhausted? 1 with
  | none => exact Or.inr ⟨component, kept, hc, hhost, hk, rfl, rfl⟩
  | some ids =>
    have hfits : Number.fits draft.ids.next = false := by
      simpa [hids] using draft.ids.exhausted?_one_isSome
    exact Or.inl (Or.inr ⟨.longInteger, rfl, Or.inr (Or.inr ⟨hfits, rfl⟩)⟩)

/-- An insertion that is not turned down places the element. -/
theorem insert_cases (draft : Draft) (parent : Option String) (kind : String)
    (index : Option Int) (props style : OrderedMap Value) :
    TurnedDown (draft.InsertLacksText props style) (Draft.insert parent kind index props style)
        draft ∨
      ∃ component kept, draft.catalog.get? kind = some component ∧ draft.CanHost parent ∧
        (∀ category ∈ kept.keys, Style.isKnown category = true) ∧
        draft.ids.exhausted? 1 = none ∧
        let e := fresh "" kind (overlay component.props props) (overlay component.style kept) parent
        Draft.insert parent kind index props style draft =
          .ok (draft.place e index).1 (draft.place e index).2 := by
  rcases planInsert_cases draft parent kind props style with
    hno | ⟨component, kept, hc, hhost, hk, hids, h⟩
  · exact Or.inl (turnedDown_of_refused hno fun failure h => by simp only [Draft.insert, h])
  · exact Or.inr ⟨component, kept, hc, hhost, hk, hids, by simp only [Draft.insert, h]⟩

/-- Placing a new element hangs in a tree of one element. -/
theorem place_grafted (ha : draft.ids.Ahead draft.page) {kind : String}
    {props style : OrderedMap Value} {parent : Option String} (index : Option Int)
    (hhost : draft.CanHost parent) :
    draft.page.Grafted (ofNodes [fresh (draft.ids.idOf draft.ids.next) kind props style none])
      parent index (draft.ids.idOf draft.ids.next)
      (draft.place (fresh "" kind props style parent) index).2.page := by
  have hnone : draft.page.get? (draft.ids.idOf draft.ids.next) = none := by
    obtain ⟨n, hn⟩ := Int.eq_ofNat_of_zero_le ha.next_nonneg
    rw [hn]
    exact get?_of_not_contains (ha.not_contains (Int.le_of_eq hn))
  have hgraft : draft.page.Grafted _ parent index _ _ := grafted_foldl_put
    (detached_single (e := fresh (draft.ids.idOf draft.ids.next) kind props style none) rfl rfl) rfl
    (by simpa [fresh] using hnone) (hhost.imp id fun ⟨id, e, hp, he, _⟩ => ⟨id, e, hp, he⟩)
  simpa [underParent, place, IdSource.draw, fresh] using hgraft

/-! ## Moving -/

/-- In a tree the look-up of a parent finds it, and the element among its children. -/
theorem fetchParent_eq {page : Page} (hl : page.Linked) {id parent : String} {e : Element}
    (he : page.get? id = some e) (hp : e.parent = some parent) :
    ∃ host, page.fetchParent e = .ok (parent, host) ∧ page.get? parent = some host ∧
      id ∈ host.children := by
  obtain ⟨host, hhost, hm⟩ := hl.listed he hp
  exact ⟨host, by simp [fetchParent, hp, fetch, hhost], hhost, hm⟩

/-- Every element but the root has a parent. -/
theorem exists_parent {page : Page} (hl : page.Linked) {id : String} {e : Element}
    (he : page.get? id = some e) (hr : page.root ≠ some id) : ∃ parent, e.parent = some parent := by
  cases hp : e.parent with
  | some parent => exact ⟨parent, rfl⟩
  | none => exact absurd (hl.root_of_parent_none he hp) hr

/-- A move that passes its checks takes an element that is not the root below one that holds
children and does not lie below it. -/
theorem planMove_cases (hl : draft.page.Linked) (id target : String) :
    Rejected (draft.planMove id target) ∨
      ∃ e old host, draft.page.get? id = some e ∧ draft.page.Lists old id ∧
        draft.page.get? target = some host ∧ ¬ draft.page.Reaches id target ∧
        draft.catalog.isContainer host.kind = true ∧ draft.planMove id target = .ok old := by
  unfold planMove
  rcases require_cases draft.page id with h | ⟨e, he, h⟩
  · exact Or.inl (h.bind _)
  simp only [h, Results.ok_bind]
  by_cases hroot : draft.page.root = some id
  · exact Or.inl ⟨.rootFixed, by simp [hroot],
      Rejection.ofEdit_of_wider rfl⟩
  cases ht : draft.page.get? target with
  | none =>
    exact Or.inl ⟨.targetMissing target,
      by simp [hroot],
      Rejection.ofEdit_of_wider rfl⟩
  | some host =>
    -- From here on the look-ups are those the code does without a guard; the links say that each
    -- of them finds what it looks for.
    obtain ⟨above, habove, hmem⟩ := hl.ancestors_eq ht
    obtain ⟨old, hold⟩ := exists_parent hl he hroot
    obtain ⟨oldHost, hfetch, holdHost, hm⟩ := fetchParent_eq hl he hold
    have hcycle : (Rejection.targetInside target id).OfEdit :=
      Or.inl (Relation.ReflTransGen.head rfl (.single rfl) : Family.Within .cycle .edit)
    by_cases hself : target = id
    · exact Or.inl ⟨.targetInside target id,
        by simp [hroot, hself], hcycle⟩
    by_cases hin : id ∈ above
    · exact Or.inl ⟨.targetInside target id,
        by simp [hroot, hself, habove, hin],
        hcycle⟩
    have hbelow : ¬ draft.page.Reaches id target := fun hr =>
      hin ((hmem id).2 ⟨fun heq => hself heq.symm, hr⟩)
    by_cases hc : draft.catalog.isContainer host.kind = true
    · refine Or.inr ⟨e, old, host, he, ⟨oldHost, holdHost, hm⟩, rfl, hbelow, hc, ?_⟩
      simp [hroot, hself, habove, hin, hc, hfetch, hm]
    · exact Or.inl ⟨.targetClosed target host.kind,
        by simp [hroot, hself, habove, hin, hc],
        Rejection.ofEdit_of_wider rfl⟩

/-- The changes a move makes are those of moving a subtree. -/
theorem rehung_rehang {page : Page} (hl : page.Linked) {id old target : String} {index : Option Int}
    {e host : Element} (he : page.get? id = some e) (hlist : page.Lists old id)
    (ht : page.get? target = some host) (hbelow : ¬ page.Reaches id target) :
    page.Rehung id old target index (rehang page id old target index) := by
  have hget : ∀ x, (rehang page id old target index).get? x = (page.get? x).map fun e =>
      if x = id then { e with parent := some target } else { e with
        children :=
          let children := if x = old then e.children.erase id else e.children
          if x = target then insertAt index id children else children } := by
    intro x
    -- The moved element is neither of the two parents, so the three changes do not meet in it.
    have hold : id ≠ old := fun heq => hl.not_reaches_of_lists hlist (heq ▸ .refl)
    have htarget : id ≠ target := fun heq => hbelow (heq ▸ .refl)
    rw [rehang, get?_modify, get?_addChild, get?_dropChild]
    by_cases hx : x = id
    · subst hx
      simp [hold, htarget]
    · cases page.get? x with
      | none => simp
      | some e =>
        simp only [if_neg hx, Option.map_some]
        split_ifs <;> rfl
  refine ⟨rfl, hlist, ⟨host, ht⟩, hbelow, fun hm => ?_, fun hm hne => ?_, fun hn => ?_⟩
  · rw [hget, hm, Option.map_some, if_pos rfl]
  · rw [hget, hm, Option.map_some, if_neg hne]
  · rw [hget, hn, Option.map_none]

/-- In a tree a move is turned down by its checks or carried out. -/
theorem move_cases (hl : draft.page.Linked) (id target : String) (index : Option Int) :
    TurnedDown (fun _ => False) (Draft.move id target index) draft ∨
      ∃ old host after, Draft.move id target index draft = .ok () after ∧
        draft.page.get? target = some host ∧ draft.catalog.isContainer host.kind = true ∧
        after.catalog = draft.catalog ∧ after.ids = draft.ids ∧
        draft.page.Rehung id old target index after.page := by
  rcases planMove_cases hl id target with hno | ⟨e, old, host, he, hlist, ht, hb, hc, h⟩
  · exact Or.inl (turnedDown_of_refused hno.refused fun failure h => by simp only [Draft.move, h])
  · exact Or.inr ⟨old, host, { draft with page := rehang draft.page id old target index },
      by simp only [Draft.move, h], ht, hc, rfl, rfl, rehung_rehang hl he hlist ht hb⟩

/-! ## Props and style -/

/-- Props are overlaid as they are given. -/
theorem updateProps_cases (draft : Draft) (id : String) (props : OrderedMap Value) :
    TurnedDown (Props.LacksText props) (Draft.updateProps id props) draft ∨
      (∃ e, draft.page.get? id = some e) ∧ Draft.updateProps id props draft = .ok () { draft with
        page := draft.page.modify id fun e => { e with props := overlay e.props props } } := by
  rcases require_cases draft.page id with hno | ⟨e, he, h⟩
  · exact Or.inl (turnedDown_of_refused hno.refused fun failure h => by
      simp only [Draft.updateProps, h])
  rcases checkProps_cases props with hno | h'
  · exact Or.inl (turnedDown_of_refused hno fun failure h' => by
      simp only [Draft.updateProps, h, h'])
  · exact Or.inr ⟨⟨e, he⟩, by simp only [Draft.updateProps, h, h']⟩

/-- Of style attributes it is the kept ones that are overlaid. -/
theorem updateStyle_cases (draft : Draft) (id : String) (style : OrderedMap Value) :
    TurnedDown (Style.LacksText style) (Draft.updateStyle id style) draft ∨
      (∃ e, draft.page.get? id = some e) ∧ ∃ kept,
        (∀ category ∈ kept.keys, Style.isKnown category = true) ∧
        Draft.updateStyle id style draft = .ok () { draft with
          page := draft.page.modify id fun e => { e with style := overlay e.style kept } } := by
  rcases require_cases draft.page id with hno | ⟨e, he, h⟩
  · exact Or.inl (turnedDown_of_refused hno.refused fun failure h => by
      simp only [Draft.updateStyle, h])
  rcases checkStyle_cases style with hno | ⟨kept, h', -, hk⟩
  · exact Or.inl (turnedDown_of_refused hno fun failure h' => by
      simp only [Draft.updateStyle, h, h'])
  · exact Or.inr ⟨⟨e, he⟩, kept, hk, by simp only [Draft.updateStyle, h, h']⟩

/-! ## Removal -/

theorem eraseDups_of_nodup {ids : List String} (h : ids.Nodup) : ids.eraseDups = ids := by
  induction ids with
  | nil => rfl
  | cons id rest ih =>
    obtain ⟨hid, hrest⟩ := List.nodup_cons.1 h
    have hkeep : rest.filter (fun x => !x == id) = rest := by
      apply List.filter_eq_self.2
      intro x hx
      have : x ≠ id := fun heq => hid (heq ▸ hx)
      simpa using this
    rw [List.eraseDups_cons, hkeep, ih hrest]

/-- Elements that are there, each named once, can all be deleted. -/
theorem deleteAll_eq {ids : List String} (hn : ids.Nodup)
    (hall : ∀ id ∈ ids, ∃ e, draft.page.get? id = some e) :
    ∃ page : Page, deleteAll ids draft = .ok () { draft with page := page } ∧
      page.root = draft.page.root ∧
      ∀ x, page.get? x = if x ∈ ids then none else draft.page.get? x := by
  induction ids generalizing draft with
  | nil => exact ⟨draft.page, rfl, rfl, by simp⟩
  | cons id rest ih =>
    obtain ⟨hid, hrest⟩ := List.nodup_cons.1 hn
    have hc := contains_iff_get?.2 (hall id List.mem_cons_self)
    obtain ⟨page, hpage, hroot, hget⟩ := @ih { draft with page := draft.page.delete id }
      hrest fun x hx => by
        obtain ⟨e, he⟩ := hall x (List.mem_cons_of_mem _ hx)
        refine ⟨e, ?_⟩
        rw [get?_delete, if_neg fun heq : x = id => hid (heq ▸ hx), he]
    refine ⟨page, by simpa only [deleteAll, hc, if_true] using hpage, hroot, ?_⟩
    intro x
    rw [hget, get?_delete]
    by_cases hx : x = id
    · subst hx
      simp
    · simp [hx]

/-- The checks let every element but the root be removed. -/
theorem exists_planRemove (hl : draft.page.Linked) (hk : draft.page.Keyed) {id : String}
    {e : Element} (he : draft.page.get? id = some e) (hroot : draft.page.root ≠ some id) :
    ∃ ids old, draft.page.Lists old id ∧ ids.Nodup ∧ (∀ x, x ∈ ids ↔ draft.page.Reaches id x) ∧
      draft.planRemove id = .ok ⟨ids, old⟩ := by
  -- Again the look-ups without a guard.
  obtain ⟨below, hbelow, hnodup, hmem⟩ := hl.descendants_eq hk he
  obtain ⟨old, hold⟩ := exists_parent hl he hroot
  obtain ⟨oldHost, hfetch, holdHost, hm⟩ := fetchParent_eq hl he hold
  refine ⟨id :: below, old, ⟨oldHost, holdHost, hm⟩, hnodup, hmem, ?_⟩
  simp [planRemove, Page.require, he, hroot, hbelow, hfetch, hm, eraseDups_of_nodup hnodup]

/-- What is to be removed is what lies below the element, each once. -/
theorem planRemove_cases (hl : draft.page.Linked) (hk : draft.page.Keyed) (id : String) :
    Rejected (draft.planRemove id) ∨
      ∃ e ids old, draft.page.get? id = some e ∧ draft.page.Lists old id ∧ ids.Nodup ∧
        (∀ x, x ∈ ids ↔ draft.page.Reaches id x) ∧ draft.planRemove id = .ok ⟨ids, old⟩ := by
  rcases require_cases draft.page id with h | ⟨e, he, h⟩
  · exact Or.inl (h.bind _)
  by_cases hroot : draft.page.root = some id
  · exact Or.inl ⟨.rootKept id, by simp [planRemove, h, hroot], Rejection.ofEdit_of_wider rfl⟩
  · obtain ⟨ids, old, hplan⟩ := exists_planRemove hl hk he hroot
    exact Or.inr ⟨e, ids, old, he, hplan⟩

/-- A removal that passes its checks is carried out. -/
theorem remove_of_planRemove (hl : draft.page.Linked) {id old : String} {ids : List String}
    {e : Element} (he : draft.page.get? id = some e) (hlist : draft.page.Lists old id)
    (hnodup : ids.Nodup) (hmem : ∀ x, x ∈ ids ↔ draft.page.Reaches id x)
    (hplan : draft.planRemove id = .ok ⟨ids, old⟩) :
    ∃ page, Draft.remove id draft = .ok ids { draft with page := page } ∧
      draft.page.Pruned id old page := by
  -- Dropping the child first leaves every id of the subtree stored.
  have hstored : ∀ x ∈ ids, ∃ f, (draft.page.dropChild old id).get? x = some f := by
    intro x hx
    obtain ⟨f, hf⟩ := hl.stored_of_reaches ((hmem x).1 hx) ⟨e, he⟩
    rw [get?_dropChild, hf]
    split_ifs
    · exact ⟨_, rfl⟩
    · exact ⟨f, rfl⟩
  obtain ⟨page, hpage, hroot, hget⟩ :=
    @deleteAll_eq { draft with page := draft.page.dropChild old id } _ hnodup hstored
  have hold : old ∉ ids := fun hm => hl.not_reaches_of_lists hlist ((hmem old).1 hm)
  refine ⟨page, by simp only [Draft.remove, hplan, hpage], hroot, hlist, ?_, ?_, ?_⟩
  · intro x hr
    rw [hget, if_pos ((hmem x).2 hr)]
  · intro f hf
    rw [hget, if_neg hold, get?_dropChild, if_pos rfl, hf]
    rfl
  · intro x hr hx
    rw [hget, if_neg fun hm => hr ((hmem x).1 hm), get?_dropChild, if_neg hx]

/-- In a tree every element that is to be deleted is there. -/
theorem remove_cases (hl : draft.page.Linked) (hk : draft.page.Keyed) (id : String) :
    TurnedDown (fun _ => False) (Draft.remove id) draft ∨
      ∃ ids old after, Draft.remove id draft = .ok ids after ∧
        (∀ x, x ∈ ids ↔ draft.page.Reaches id x) ∧
        after.catalog = draft.catalog ∧ after.ids = draft.ids ∧
        draft.page.Pruned id old after.page := by
  rcases planRemove_cases hl hk id with hno | ⟨e, ids, old, he, hlist, hnodup, hmem, h⟩
  · exact Or.inl (turnedDown_of_refused hno.refused fun failure h => by simp only [Draft.remove, h])
  · obtain ⟨page, hrun, hpruned⟩ := remove_of_planRemove hl he hlist hnodup hmem h
    exact Or.inr ⟨ids, old, { draft with page := page }, hrun, hmem, rfl, rfl, hpruned⟩

/-! ## Attaching -/

/-- What the checks want of one copied element. -/
structure Attachable (draft : Draft) (ids : List String) (node : Element) : Prop where
  kind_known : draft.catalog.contains node.kind = true
  holds_children : node.children ≠ [] → draft.catalog.isContainer node.kind = true
  children_copied : ∀ child ∈ node.children, child ∈ ids
  style_known : ∀ category ∈ node.style.keys, Style.isKnown category = true

/-- When kind and children are as they should be, it is the style that decides. -/
theorem checkCopied_eq {ids : List String} {node : Element} {component : Component}
    (hkind : draft.catalog.require node.kind (some node.id) = .ok component)
    (hholds : node.children ≠ [] → draft.catalog.isContainer node.kind = true)
    (hcopied : ∀ child ∈ node.children, child ∈ ids) :
    draft.checkCopied ids node = discard (checkStyle node.style) := by
  have hopen : (!node.children.isEmpty && !draft.catalog.isContainer node.kind) = false := by
    by_cases hne : node.children = []
    · simp [hne]
    · simp [hholds hne]
  have hstray : (node.children.any fun child => !ids.contains child) = false := by
    simpa using hcopied
  simp only [checkCopied, hkind, Results.ok_bind, hopen, hstray, Bool.false_eq_true, if_false]

/-- A copied element is checked by itself. -/
theorem checkCopied_cases (draft : Draft) (ids : List String) (node : Element) :
    Refused (Style.LacksText node.style) (draft.checkCopied ids node) ∨
      draft.Attachable ids node ∧ draft.checkCopied ids node = .ok () := by
  rcases requireKind_cases draft.catalog node.kind (some node.id) with h | ⟨component, hc, h⟩
  · exact Or.inl (h.bind _).refused
  by_cases hopen : node.children ≠ [] ∧ draft.catalog.isContainer node.kind = false
  · exact Or.inl (Or.inl ⟨.closedCopy node.id node.kind, by simp [checkCopied, h, hopen],
      Rejection.ofEdit_of_wider rfl⟩)
  have hholds : node.children ≠ [] → draft.catalog.isContainer node.kind = true := by
    intro hne
    simpa using fun hf => hopen ⟨hne, hf⟩
  by_cases hstray : ∃ child ∈ node.children, child ∉ ids
  · refine Or.inl (Or.inl ⟨.strayChildren node.id, ?_, Rejection.ofEdit_of_wider rfl⟩)
    have hne : node.children ≠ [] := by
      obtain ⟨child, hm, -⟩ := hstray
      exact List.ne_nil_of_mem hm
    simp [checkCopied, h, hholds hne, hstray]
  have hcopied : ∀ child ∈ node.children, child ∈ ids := by
    intro child hm
    by_contra hnot
    exact hstray ⟨child, hm, hnot⟩
  rw [checkCopied_eq h hholds hcopied]
  rcases checkStyle_cases node.style with hno | ⟨kept, hs, hknown, -⟩
  · exact Or.inl (hno.of_error fun failure hs => by simp [hs])
  · refine Or.inr ⟨⟨?_, hholds, hcopied, hknown⟩, by simp [hs]⟩
    exact Option.isSome_iff_exists.2 ⟨component, hc⟩

theorem checkAllCopied_cases (draft : Draft) (ids : List String) (nodes : List Element) :
    Refused (fun fault => ∃ node ∈ nodes, Style.LacksText node.style fault)
        (draft.checkAllCopied ids nodes) ∨
      (∀ node ∈ nodes, draft.Attachable ids node) ∧ draft.checkAllCopied ids nodes = .ok () := by
  induction nodes with
  | nil => exact Or.inr ⟨by simp, rfl⟩
  | cons node rest ih =>
    rw [checkAllCopied]
    rcases checkCopied_cases draft ids node with hno | ⟨hnode, h⟩
    · exact Or.inl ((hno.of_error fun failure h => by simp only [h]).mono fun fault hf =>
        ⟨node, List.mem_cons_self, hf⟩)
    · simp only [h]
      refine ih.imp (·.mono ?_) fun ⟨hrest, h⟩ => ⟨List.forall_mem_cons.2 ⟨hnode, hrest⟩, h⟩
      rintro fault ⟨other, hm, hf⟩
      exact ⟨other, List.mem_cons_of_mem _ hm, hf⟩

/-- All of them are, and then the place. -/
theorem planAttach_cases (draft : Draft) (parent : Option String) (nodes : List Element) :
    Refused (fun fault => ∃ node ∈ nodes, Style.LacksText node.style fault)
        (draft.planAttach parent nodes) ∨
      (∀ node ∈ nodes, draft.Attachable (nodes.map Element.id) node) ∧ draft.CanHost parent ∧
        draft.planAttach parent nodes = .ok () := by
  unfold planAttach
  by_cases hempty : nodes.isEmpty = true
  · exact Or.inl (Or.inl ⟨.nothingToAttach, if_pos hempty, Rejection.ofEdit_of_wider rfl⟩)
  simp only [if_neg hempty]
  rcases checkAllCopied_cases draft (nodes.map Element.id) nodes with hno | ⟨hall, h⟩
  · exact Or.inl (hno.of_error fun failure h => by simp only [h])
  simp only [h]
  exact (checkHost_cases draft parent).imp (·.refused) fun ⟨hhost, h⟩ => ⟨hall, hhost, h⟩

/-- An attachment that has run out of ids has taken those it could. -/
def Stalled (draft : Draft) (parent : Option String) (nodes : List Element)
    (index : Option Int) : Prop :=
  ∃ ids, draft.ids.exhausted? nodes.length = some ids ∧
    Draft.attach parent nodes index draft = .error (.noText .longInteger) { draft with ids := ids }

/-- What is left of the reasons to fail is that the ids run out. -/
theorem attach_cases (draft : Draft) (parent : Option String) (nodes : List Element)
    (index : Option Int) :
    TurnedDown (fun fault => ∃ node ∈ nodes, Style.LacksText node.style fault)
        (Draft.attach parent nodes index) draft ∨
      draft.Stalled parent nodes index ∨
      (∀ node ∈ nodes, draft.Attachable (nodes.map Element.id) node) ∧ draft.CanHost parent ∧
        draft.ids.exhausted? nodes.length = none ∧
        Draft.attach parent nodes index draft = .ok (draft.placeCopy parent nodes index).1
          (draft.placeCopy parent nodes index).2 := by
  rcases planAttach_cases draft parent nodes with hno | ⟨hall, hhost, h⟩
  · exact Or.inl (turnedDown_of_refused hno fun failure h => by simp only [Draft.attach, h])
  right
  cases hids : draft.ids.exhausted? nodes.length with
  | some ids => exact Or.inl ⟨ids, hids, by simp only [Draft.attach, h, hids]⟩
  | none => exact Or.inr ⟨hall, hhost, rfl, by simp only [Draft.attach, h, hids]⟩

theorem Stalled.ne_ok {parent : Option String} {nodes : List Element} {index : Option Int}
    (h : draft.Stalled parent nodes index) {id : String} {after : Draft} :
    Draft.attach parent nodes index draft ≠ .ok id after := by
  obtain ⟨ids, -, h⟩ := h
  rw [h]
  exact nofun

/-! ## Copying -/

/-- In a tree every element that is there can be copied. -/
theorem copy_cases (hl : draft.page.Linked) (hk : draft.page.Keyed) (id : String) :
    Rejected (draft.copy id) ∨ ∃ nodes, draft.copy id = .ok nodes := by
  rcases require_cases draft.page id with hrequire | ⟨e, he, hrequire⟩
  · exact Or.inl (hrequire.bind _)
  · obtain ⟨nodes, hcopy, -⟩ := copy_eq hl hk he
    exact Or.inr ⟨nodes, hcopy⟩

end Draft

end PageBuilder
