import PageBuilder.Archive.Write
import PageBuilder.Proofs.Json.Arranged
import PageBuilder.Proofs.Json.Limit
import PageBuilder.Proofs.Maps
import PageBuilder.Proofs.Markup.Texts
import PageBuilder.Proofs.Number.Limit
import PageBuilder.Proofs.Page.Integrity
import PageBuilder.Proofs.Results

/-!
# What a document says

A snapshot that is valid as a document (`DocumentValid`) has a JSON of its own, `Snapshot.saved`,
which the writer finds without a failure.  It is written if no prop is an integer of too many digits
(`Writable`), and not otherwise (`write_eq`, `write_eq_error`).  Sorted throughout, that JSON
depends only on the content of the snapshot (`SameContent`), so snapshots of the same content are
saved as one text.
-/

namespace PageBuilder

/-! ## The same content -/

/-- Equal but for the order of props and style attributes. -/
structure Element.SameContent (a b : Element) : Prop where
  id_eq : a.id = b.id
  kind_eq : a.kind = b.kind
  props : a.props.Same b.props
  style : a.style.Same b.style
  children_eq : a.children = b.children
  parent_eq : a.parent = b.parent

namespace Element.SameContent

variable {a b c : Element}

theorem refl (a : Element) : a.SameContent a :=
  ⟨rfl, rfl, .refl _, .refl _, rfl, rfl⟩

theorem symm (h : a.SameContent b) : b.SameContent a :=
  ⟨h.id_eq.symm, h.kind_eq.symm, h.props.symm, h.style.symm, h.children_eq.symm,
    h.parent_eq.symm⟩

theorem trans (h : a.SameContent b) (h' : b.SameContent c) : a.SameContent c :=
  ⟨h.id_eq.trans h'.id_eq, h.kind_eq.trans h'.kind_eq, h.props.trans h'.props,
    h.style.trans h'.style, h.children_eq.trans h'.children_eq, h.parent_eq.trans h'.parent_eq⟩

end Element.SameContent

/-- Equal but for the order of elements, props, style attributes and viewport settings. -/
structure Snapshot.SameContent (s t : Snapshot) : Prop where
  root_eq : s.page.root = t.page.root
  /-- Under each id both have an element of the same content, or neither has any. -/
  elements : ∀ id, Option.Rel Element.SameContent (s.page.get? id) (t.page.get? id)
  selection_eq : s.selection = t.selection
  viewport : s.viewport.Same t.viewport

namespace Snapshot.SameContent

variable {s t u : Snapshot}

theorem symm (h : s.SameContent t) : t.SameContent s where
  root_eq := h.root_eq.symm
  elements := by
    intro id
    have hst := h.elements id
    revert hst
    generalize s.page.get? id = a
    generalize t.page.get? id = b
    rintro (hsame | _)
    · exact .some hsame.symm
    · exact .none
  selection_eq := h.selection_eq.symm
  viewport := h.viewport.symm

theorem trans (h : s.SameContent t) (h' : t.SameContent u) : s.SameContent u where
  root_eq := h.root_eq.trans h'.root_eq
  elements := by
    intro id
    have hst := h.elements id
    have htu := h'.elements id
    revert hst htu
    generalize s.page.get? id = a
    generalize t.page.get? id = b
    generalize u.page.get? id = c
    rintro (hsame | _) (hsame' | _)
    · exact .some (hsame.trans hsame')
    · exact .none
  selection_eq := h.selection_eq.trans h'.selection_eq
  viewport := h.viewport.trans h'.viewport

end Snapshot.SameContent

/-! ### Its test -/

namespace Snapshot

variable {α : Type} {same : α → α → Bool} {R : α → α → Prop} {m n : OrderedMap α}

theorem length_keys (m : OrderedMap α) : m.keys.length = m.size :=
  List.length_map ..

/-- The test of two maps compares sizes and looks every entry of one up in the other; no entry of
the other is left over. -/
theorem rel_of_sameEntries (h : ∀ {a b}, same a b = true → R a b)
    (hsame : sameEntries same m n = true) (key : String) :
    Option.Rel R (m.get? key) (n.get? key) := by
  rw [sameEntries, Bool.and_eq_true, beq_iff_eq, List.all_eq_true] at hsame
  obtain ⟨hsize, hall⟩ := hsame
  have hentry {key : String} {a : α} (ha : m.get? key = some a) :
      ∃ b, n.get? key = some b ∧ R a b := by
    have hsame := hall _ ((m.mem_entries_iff _ _).2 ha)
    cases hb : n.get? key with
    | none => simp [hb] at hsame
    | some b => exact ⟨b, rfl, h (by simpa [hb] using hsame)⟩
  -- As many keys, all of the one among those of the other.
  have hkeys : m.keys.Perm n.keys := by
    apply (List.subperm_of_subset m.nodup_keys _).perm_of_length_le
    · exact Nat.le_of_eq ((length_keys n).trans (hsize.symm.trans (length_keys m).symm))
    · intro key hk
      obtain ⟨a, ha⟩ := (m.mem_keys_iff key).1 hk
      obtain ⟨b, hb, -⟩ := hentry ha
      exact (n.mem_keys_iff key).2 ⟨b, hb⟩
  cases ha : m.get? key with
  | some a =>
    obtain ⟨b, hb, hR⟩ := hentry ha
    rw [hb]
    exact .some hR
  | none =>
    cases hb : n.get? key with
    | none => exact .none
    | some b =>
      have hk := hkeys.mem_iff.2 ((n.mem_keys_iff key).2 ⟨b, hb⟩)
      obtain ⟨a, ha'⟩ := (m.mem_keys_iff key).1 hk
      cases ha.symm.trans ha'

theorem sameEntries_of_rel (h : ∀ {a b}, R a b → same a b = true)
    (hrel : ∀ key, Option.Rel R (m.get? key) (n.get? key)) : sameEntries same m n = true := by
  rw [sameEntries, Bool.and_eq_true, beq_iff_eq, List.all_eq_true]
  constructor
  · rw [← length_keys, ← length_keys]
    apply List.Perm.length_eq
    apply (List.perm_ext_iff_of_nodup m.nodup_keys n.nodup_keys).2
    intro key
    have hkey := hrel key
    show key ∈ m.keys ↔ key ∈ n.keys
    rw [m.mem_keys_iff, n.mem_keys_iff]
    revert hkey
    generalize m.get? key = a
    generalize n.get? key = b
    rintro (_ | _) <;> simp
  · rintro ⟨key, a⟩ hm
    have hkey := hrel key
    rw [(m.mem_entries_iff _ _).1 hm] at hkey
    dsimp only
    revert hkey
    generalize n.get? key = b
    rintro (hR | _)
    exact h hR

/-- So it decides whether the maps are related key by key. -/
theorem sameEntries_iff (h : ∀ {a b}, same a b = true ↔ R a b) :
    sameEntries same m n = true ↔ ∀ key, Option.Rel R (m.get? key) (n.get? key) :=
  ⟨rel_of_sameEntries h.1, sameEntries_of_rel h.2⟩

theorem sameValues_iff {m n : OrderedMap Value} :
    sameEntries (fun v w => v = w) m n = true ↔ m.Same n := by
  rw [sameEntries_iff (R := Eq) (by simp)]
  apply forall_congr'
  intro key
  generalize m.get? key = a
  generalize n.get? key = b
  constructor
  · rintro (rfl | _) <;> rfl
  · rintro rfl
    cases a with
    | none => exact .none
    | some v => exact .some rfl

/-- Elements are compared part by part. -/
theorem sameElement_iff {a b : Element} : sameElement a b = true ↔ a.SameContent b := by
  simp only [sameElement, Bool.and_eq_true, decide_eq_true_eq, sameValues_iff]
  exact ⟨fun ⟨⟨⟨⟨⟨h1, h2⟩, h3⟩, h4⟩, h5⟩, h6⟩ => ⟨h1, h2, h3, h4, h5, h6⟩,
    fun ⟨h1, h2, h3, h4, h5, h6⟩ => ⟨⟨⟨⟨⟨h1, h2⟩, h3⟩, h4⟩, h5⟩, h6⟩⟩

/-- The comparison of snapshots is that of their content. -/
theorem same_iff {s t : Snapshot} : s.same t = true ↔ s.SameContent t := by
  simp only [same, Bool.and_eq_true, decide_eq_true_eq, sameValues_iff,
    sameEntries_iff sameElement_iff]
  exact ⟨fun ⟨⟨⟨h1, h2⟩, h3⟩, h4⟩ => ⟨h1, h2, h3, h4⟩, fun ⟨h1, h2, h3, h4⟩ => ⟨⟨⟨h1, h2⟩, h3⟩, h4⟩⟩

end Snapshot

/-! ## Snapshots that make a document -/

namespace Archive

/-- An element that can be saved under its id. -/
structure Saveable (e : Element) : Prop where
  id_valid : Element.isValidId e.id = true
  kind_ne : e.kind ≠ ""
  props_checked : Props.check e.props = .ok ()
  /-- The deletion mark is no value of a prop. -/
  props_set : ∀ p ∈ e.props.entries, p.2 ≠ .null
  style_text : ∀ p ∈ e.style.entries, Style.isKnown p.1 = true ∧ ∃ s, p.2 = .str s

/-- A snapshot that is valid as a document for a catalog. -/
structure DocumentValid (catalog : Catalog) (s : Snapshot) : Prop where
  keyed : s.page.Keyed
  saveable : ∀ p ∈ s.page.elements.entries, Saveable p.2
  consistent : s.page.problems catalog.orBuiltIn false = []
  selected : ∀ id ∈ s.selection, s.page.contains id = true
  viewport : ∃ name zoom, name ∈ Failure.viewportNames ∧ 10 ≤ zoom ∧ zoom ≤ 400 ∧
    s.viewport.Same (.ofList [("name", .str name), ("zoom", .int zoom)])

/-- No prop holds an integer of too many digits to be written. -/
def Writable (s : Snapshot) : Prop :=
  ∀ p ∈ s.page.elements.entries, ∀ q ∈ p.2.props.entries, q.2.textFault? = none

instance (s : Snapshot) : Decidable (Writable s) :=
  inferInstanceAs <| Decidable <|
    ∀ p ∈ s.page.elements.entries, ∀ q ∈ p.2.props.entries, q.2.textFault? = none

/-- Viewport settings that are valid in a document. -/
def ViewportValid (viewport : Viewport) : Prop :=
  ∃ name zoom, name ∈ Failure.viewportNames ∧ 10 ≤ zoom ∧ zoom ≤ 400 ∧
    viewport.Same (.ofList [("name", .str name), ("zoom", .int zoom)])

end Archive

/-! ## The JSON of a document -/

/-- The JSON of a value that can be saved; of any other, null. -/
def Value.saved : Value → Json
  | .bool b => .bool b
  | .int n => .int n
  | .float x => .float x
  | .str s => .str s
  | .binding (.str s) => .object [(Archive.bindingKey, .str s)]
  | _ => .null

/-- The members of an object with one member for each entry. -/
def savedMembers {α : Type} (json : α → Json) (entries : List (String × α)) :
    List (String × Json) :=
  entries.map fun p => (p.1, json p.2)

/-- The JSON of an element. -/
def Element.saved (e : Element) : Json :=
  .object [("kind", .str e.kind), ("props", .object (savedMembers Value.saved e.props.entries)),
    ("style", .object (savedMembers Value.saved e.style.entries)),
    ("children", .array (e.children.map .str)), ("parent", Archive.optionalJson e.parent)]

/-- The JSON of a snapshot. -/
def Snapshot.saved (s : Snapshot) : Json :=
  .object [("version", .int Archive.version), ("root", Archive.optionalJson s.page.root),
    ("elements", .object (savedMembers Element.saved s.page.elements.entries)),
    ("selection", .array (s.selection.map .str)),
    ("viewport", .object (savedMembers Value.saved s.viewport.entries))]

@[simp] theorem keys_savedMembers {α : Type} (json : α → Json) (entries : List (String × α)) :
    (savedMembers json entries).map Prod.fst = entries.map Prod.fst := by
  simp [savedMembers]

namespace Archive

/-! ### The writer finds it -/

/-- Members are written one after the other, and fail only where one does. -/
theorem membersJson_eq {json : Value → Except Failure Json} {saved : Value → Json}
    {entries : List (String × Value)} (h : ∀ p ∈ entries, json p.2 = .ok (saved p.2)) :
    membersJson json entries = .ok (savedMembers saved entries) := by
  induction entries with
  | nil => rfl
  | cons p rest ih =>
    obtain ⟨key, value⟩ := p
    rw [membersJson, h _ List.mem_cons_self, ih fun p hp => h p (List.mem_cons_of_mem _ hp)]
    rfl

/-- The same for elements. -/
theorem elementsJson_eq {entries : List (String × Element)}
    (h : ∀ p ∈ entries, elementJson p.2 = .ok p.2.saved) :
    elementsJson entries = .ok (savedMembers Element.saved entries) := by
  induction entries with
  | nil => rfl
  | cons p rest ih =>
    obtain ⟨id, e⟩ := p
    rw [elementsJson, h _ List.mem_cons_self, ih fun p hp => h p (List.mem_cons_of_mem _ hp)]
    rfl

theorem checkOne_of_check {props : OrderedMap Value} (h : Props.check props = .ok ()) :
    ∀ p ∈ props.entries, Props.checkOne p.1 p.2 = .ok () :=
  (Props.checkEntries_eq_ok_iff _).1 h

/-- What a prop can be that passes the checks and is no deletion mark. -/
theorem value_cases {name : String} {value : Value} (hcheck : Props.checkOne name value = .ok ())
    (hset : value ≠ .null) :
    (∃ b, value = .bool b) ∨ (∃ n, value = .int n) ∨ (∃ x, value = .float x) ∨
      (∃ s, value = .str s) ∨ ∃ s, value = .binding (.str s) := by
  unfold Props.checkOne at hcheck
  split at hcheck
  · cases hcheck
  · split at hcheck
    · cases hcheck
    · cases value with
      | null => exact absurd rfl hset
      | bool b => exact Or.inl ⟨b, rfl⟩
      | int n => exact Or.inr (Or.inl ⟨n, rfl⟩)
      | float x => exact Or.inr (Or.inr (Or.inl ⟨x, rfl⟩))
      | str s => exact Or.inr (Or.inr (Or.inr (Or.inl ⟨s, rfl⟩)))
      | binding e =>
        cases e with
        | str s => exact Or.inr (Or.inr (Or.inr (Or.inr ⟨s, rfl⟩)))
        | _ => cases hcheck
      | list items => cases hcheck
      | dict fields => cases hcheck
      | tooDeep => cases hcheck

/-- What passes the check of props and is not null has a JSON. -/
theorem propJson_eq {name : String} {value : Value} (hcheck : Props.checkOne name value = .ok ())
    (hset : value ≠ .null) : propJson value = .ok value.saved := by
  rcases value_cases hcheck hset with
    ⟨_, rfl⟩ | ⟨_, rfl⟩ | ⟨_, rfl⟩ | ⟨_, rfl⟩ | ⟨_, rfl⟩ <;> rfl

/-- An element that can be saved is. -/
theorem elementJson_eq {e : Element} (h : Saveable e) : elementJson e = .ok e.saved := by
  have hprops : membersJson propJson e.props.entries =
      .ok (savedMembers Value.saved e.props.entries) := by
    apply membersJson_eq
    intro p hp
    exact propJson_eq (checkOne_of_check h.props_checked p hp) (h.props_set p hp)
  have hstyle : membersJson plainJson e.style.entries =
      .ok (savedMembers Value.saved e.style.entries) := by
    apply membersJson_eq
    rintro ⟨category, value⟩ hm
    obtain ⟨-, s, rfl⟩ := h.style_text _ hm
    rfl
  rw [elementJson, hprops, hstyle]
  rfl

variable {catalog : Catalog} {s t : Snapshot}

/-- And so is a valid snapshot: the writer meets nothing that has no JSON. -/
theorem toJson_eq (h : DocumentValid catalog s) : toJson s = .ok s.saved := by
  have helements : elementsJson s.page.elements.entries =
      .ok (savedMembers Element.saved s.page.elements.entries) := by
    apply elementsJson_eq
    exact fun p hp => elementJson_eq (h.saveable p hp)
  have hviewport : membersJson plainJson s.viewport.entries =
      .ok (savedMembers Value.saved s.viewport.entries) := by
    obtain ⟨name, zoom, -, -, -, hsame⟩ := h.viewport
    apply membersJson_eq
    rintro ⟨key, value⟩ hm
    have hv := (hsame key).symm.trans ((s.viewport.mem_entries_iff _ _).1 hm)
    rw [OrderedMap.get?_ofList_iff (by simp)] at hv
    simp only [List.mem_cons, Prod.mk.injEq, List.not_mem_nil, or_false] at hv
    rcases hv with ⟨-, rfl⟩ | ⟨-, rfl⟩ <;> rfl
  rw [toJson, helements, hviewport]
  rfl

/-! ### It is written if its integers can be -/

open Json

/-- The integers in an object are those of its members. -/
theorem membersFit_savedMembers {α : Type} {json : α → Json} {entries : List (String × α)} :
    membersFit (savedMembers json entries) = true ↔ ∀ p ∈ entries, (json p.2).fits = true := by
  rw [membersFit_iff, savedMembers, List.forall_mem_map]

theorem fits_optionalJson (text : Option String) : (optionalJson text).fits = true := by
  cases text <;> rfl

theorem itemsFit_strings (texts : List String) : itemsFit (texts.map .str) = true := by
  refine itemsFit_iff.2 fun item hm => ?_
  obtain ⟨text, -, rfl⟩ := List.mem_map.1 hm
  rfl

/-- Among the values of props only integers can be too long. -/
theorem fits_saved_prop_iff {name : String} {value : Value}
    (hcheck : Props.checkOne name value = .ok ()) (hset : value ≠ .null) :
    value.saved.fits = true ↔ value.textFault? = none := by
  rcases value_cases hcheck hset with
    ⟨_, rfl⟩ | ⟨n, rfl⟩ | ⟨_, rfl⟩ | ⟨_, rfl⟩ | ⟨_, rfl⟩
  case inr.inl => cases h : Number.fits n <;> simp [Value.saved, fits, Value.textFault?, h]
  all_goals exact iff_of_true rfl rfl

/-- Style values are texts, so it is the props that count. -/
theorem fits_saved_element_iff {e : Element} (h : Saveable e) :
    e.saved.fits = true ↔ ∀ q ∈ e.props.entries, q.2.textFault? = none := by
  have hstyle : membersFit (savedMembers Value.saved e.style.entries) = true := by
    refine membersFit_savedMembers.2 fun p hp => ?_
    obtain ⟨-, text, heq⟩ := h.style_text p hp
    rw [heq]
    rfl
  have hprops : membersFit (savedMembers Value.saved e.props.entries) = true ↔
      ∀ q ∈ e.props.entries, q.2.textFault? = none := by
    rw [membersFit_savedMembers]
    refine forall₂_congr fun q hq => ?_
    exact fits_saved_prop_iff (checkOne_of_check h.props_checked q hq) (h.props_set q hq)
  rw [Element.saved, ← hprops]
  simp [fits, membersFit, hstyle, itemsFit_strings, fits_optionalJson]

/-- The limit on digits is all that keeps a valid snapshot from being written. -/
theorem fits_saved_iff (h : DocumentValid catalog s) : s.saved.fits = true ↔ Writable s := by
  have hviewport : membersFit (savedMembers Value.saved s.viewport.entries) = true := by
    obtain ⟨name, zoom, -, hleast, hgreatest, hsame⟩ := h.viewport
    refine membersFit_savedMembers.2 fun p hp => ?_
    have hp := hsame.perm.mem_iff.1 hp
    rw [OrderedMap.mem_entries_iff, OrderedMap.get?_ofList_iff (by simp)] at hp
    simp only [List.mem_cons, Prod.ext_iff, List.not_mem_nil, or_false] at hp
    rcases hp with ⟨-, heq⟩ | ⟨-, heq⟩
    · rw [heq]
      rfl
    · rw [heq]
      exact Number.fits_of_le (m := zoom) (n := 400) (by decide) (by omega)
  have helements : membersFit (savedMembers Element.saved s.page.elements.entries) = true ↔
      Writable s := by
    rw [membersFit_savedMembers]
    exact forall₂_congr fun p hp => fits_saved_element_iff (h.saveable p hp)
  have hversion : Number.fits version = true := by decide
  rw [Snapshot.saved, ← helements]
  simp [fits, membersFit, hversion, hviewport, itemsFit_strings, fits_optionalJson]

/-- The same values stand in tags, and styles that can be saved have texts only. -/
theorem hasTexts_iff_writable (h : DocumentValid catalog s) : s.page.HasTexts ↔ Writable s := by
  have hstyle : ∀ p ∈ s.page.elements.entries, Style.textFault? p.2.style = none := by
    intro p hp
    refine Style.textFault?_eq_none_iff.2 fun c _ v hv => ?_
    have hm := (OrderedMap.mem_entries_iff _ _ _).2 (Style.consulted?_eq_some_iff.1 hv).1
    obtain ⟨-, text, rfl⟩ := (h.saveable p hp).style_text _ hm
    rfl
  constructor
  · intro htexts p hp
    exact (htexts p.1 p.2 ((OrderedMap.mem_entries_iff _ _ _).1 hp)).props
  · intro hw id e he
    have hp := (OrderedMap.mem_entries_iff _ _ _).2 he
    exact ⟨hw _ hp, hstyle _ hp⟩

theorem writableJson_eq (h : DocumentValid catalog s) (hw : Writable s) :
    writableJson s = .ok s.saved := by
  simp only [writableJson, toJson_eq h, Results.ok_bind, (fits_saved_iff h).2 hw, if_true]
  rfl

/-- A valid snapshot without integers of too many digits is written as the text of its JSON. -/
theorem write_eq (h : DocumentValid catalog s) (hw : Writable s) :
    write s = .ok (s.saved.pretty ++ "\n") := by
  rw [write, writableJson_eq h hw]
  rfl

/-- With an integer of too many digits there is neither a text nor a digest. -/
theorem write_eq_error (h : DocumentValid catalog s) (hw : ¬ Writable s) :
    write s = .error (.noText .longInteger) ∧ digest s = .error (.noText .longInteger) := by
  have hjson : writableJson s = .error (.noText .longInteger) := by
    simp only [writableJson, toJson_eq h, Results.ok_bind, mt (fits_saved_iff h).1 hw]
    rfl
  rw [write, digest, hjson]
  exact ⟨rfl, rfl⟩

/-! ### It depends on the content -/

/-- Entries of the same keys and the same JSON, in whatever order, make one sorted object. -/
theorem arranged_savedMembers {α : Type} {json : α → Json} {m n : OrderedMap α}
    (h : ∀ key, (m.get? key).map (fun x => (json x).arranged) =
      (n.get? key).map fun x => (json x).arranged) :
    arranged (.object (savedMembers json m.entries)) =
      arranged (.object (savedMembers json n.entries)) := by
  have hsame : (m.mapValues fun _ x => (json x).arranged).Same
      (n.mapValues fun _ x => (json x).arranged) := by
    intro key
    rw [OrderedMap.get?_mapValues, OrderedMap.get?_mapValues]
    exact h key
  have hperm := byKey_perm (m.mapValues _).nodup_keys hsame.perm
  rw [arranged, arranged, arrangedMembers_eq, arrangedMembers_eq, savedMembers, savedMembers,
    List.map_map, List.map_map]
  exact congrArg Json.object hperm

/-- Maps that say the same make the same object. -/
theorem arranged_values {m n : OrderedMap Value} (h : m.Same n) :
    arranged (.object (savedMembers Value.saved m.entries)) =
      arranged (.object (savedMembers Value.saved n.entries)) :=
  arranged_savedMembers fun key => by rw [h key]

/-- Elements of the same content have one JSON once it is sorted. -/
theorem arranged_element {a b : Element} (h : a.SameContent b) :
    a.saved.arranged = b.saved.arranged := by
  have hprops := arranged_values h.props
  have hstyle := arranged_values h.style
  rw [Element.saved, Element.saved, arranged, arranged]
  simp only [arrangedMembers, hprops, hstyle, h.kind_eq, h.children_eq, h.parent_eq]

/-- And so have snapshots, of which the selection stays in its order. -/
theorem arranged_snapshot (h : s.SameContent t) : s.saved.arranged = t.saved.arranged := by
  have helements : arranged (.object (savedMembers Element.saved s.page.elements.entries)) =
      arranged (.object (savedMembers Element.saved t.page.elements.entries)) := by
    apply arranged_savedMembers
    intro id
    have hrel := h.elements id
    rw [Page.get?, Page.get?] at hrel
    revert hrel
    generalize s.page.elements.get? id = a
    generalize t.page.elements.get? id = b
    rintro (hsame | _)
    · exact congrArg some (arranged_element hsame)
    · rfl
  have hviewport := arranged_values h.viewport
  rw [Snapshot.saved, Snapshot.saved, arranged, arranged]
  simp only [arrangedMembers, helements, hviewport, h.root_eq, h.selection_eq]

end Archive

end PageBuilder
