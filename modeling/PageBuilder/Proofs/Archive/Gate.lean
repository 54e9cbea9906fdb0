import PageBuilder.Proofs.Archive.RoundTrip
import PageBuilder.Proofs.Session.Coupled

/-!
# What the reader lets through

The reader is the gate through which pages come in from outside.  Whatever the text, it is refused
with a fault of the document or makes a snapshot that is valid as one (`read_gate`): the shape check
sees to kinds, viewport and zoom, the element check to ids and props, the check of structure to
links and style, and the selection is cut down to what the page holds.  Only a numeral of too many
digits is refused before there is a document to speak of.

The last refusals that there might be, those for want of a text, are excluded by what the JSON
reader lets through: all its integers can be written (`Json.fits_of_read`), and so can every value
made of them (`textFault?_ofJson`).

So nothing behind the gate has to check again.  A valid snapshot is loaded by every session with the
same catalog (`load_valid`), and saved as a text that is read back.
-/

namespace PageBuilder.Archive

open Results

/-! ## The shape -/

section Shape

variable {α β : Type}

/-- Two shapes fit only if each does; the faults of both are gathered otherwise. -/
theorem both_eq_ok {a : Shaped α} {b : Shaped β} {p : α × β} (h : a.both b = .ok p) :
    a = .ok p.1 ∧ b = .ok p.2 := by
  cases a with
  | error faults => cases b <;> cases h
  | ok x =>
    cases b with
    | error faults => cases h
    | ok y =>
      cases h
      exact ⟨rfl, rfl⟩

/-- What comes of a list of parts comes of the parts one by one. -/
theorem mem_of_all {parts : List (Shaped α)} {xs : List α} (h : Shaped.all parts = .ok xs) :
    ∀ x ∈ xs, .ok x ∈ parts := by
  induction parts generalizing xs with
  | nil =>
    cases h
    simp
  | cons part rest ih =>
    obtain ⟨p, hp, rfl⟩ := exists_of_map h
    obtain ⟨hpart, hrest⟩ := both_eq_ok hp
    intro x hx
    rcases List.mem_cons.1 hx with rfl | hx
    · rw [hpart]
      exact List.mem_cons_self
    · exact List.mem_cons_of_mem _ (ih hrest x hx)

/-- Only an object has members. -/
theorem eq_of_membersShape {json : Json} {members : List (String × Json)}
    (h : membersShape json = .ok members) : json = .object members := by
  cases json with
  | object => exact congrArg Json.object (Except.ok.inj h)
  | _ => cases h

/-- Every value of a map that fits is the shape of a member. -/
theorem shape_of_mapShape {shape : Json → Shaped α} {json : Json} {xs : List (String × α)}
    (h : mapShape shape json = .ok xs) : ∀ p ∈ xs, ∃ members m, json = .object members ∧
      m ∈ members ∧ shape m.2 = .ok p.2 := by
  unfold mapShape at h
  split at h
  · cases h
  · rename_i members hmembers
    intro p hp
    obtain ⟨m, hm, heq⟩ := List.mem_map.1 (mem_of_all h p hp)
    obtain ⟨x, hx, rfl⟩ := exists_of_map heq
    exact ⟨members, m, eq_of_membersShape hmembers, hm, hx⟩

/-- The keys are those of the members, in their order. -/
theorem keys_of_all {shape : Json → Shaped α} {members : List (String × Json)}
    {xs : List (String × α)}
    (h : Shaped.all (members.map fun m => (fun x => (m.1, x)) <$> shape m.2) = .ok xs) :
    xs.map Prod.fst = members.map Prod.fst := by
  induction members generalizing xs with
  | nil =>
    cases h
    rfl
  | cons m rest ih =>
    obtain ⟨p, hp, rfl⟩ := exists_of_map h
    obtain ⟨hfirst, hrest⟩ := both_eq_ok hp
    obtain ⟨x, -, hx⟩ := exists_of_map hfirst
    rw [List.map_cons, List.map_cons, ih hrest, ← hx]

/-- A field is its default, or the shape of the member of its name. -/
theorem field_cases {members : List (String × Json)} {key : String} {default x : α}
    {shape : Json → Shaped α} (h : field members key default shape = .ok x) :
    x = default ∨ ∃ json, (key, json) ∈ members ∧ shape json = .ok x := by
  unfold field at h
  split at h
  · cases h
    exact Or.inl rfl
  · rename_i hlookup
    exact Or.inr ⟨_, mem_of_lookup hlookup, h⟩

end Shape

/-- A kind is not empty. -/
theorem ne_of_kindShape {json : Json} {kind : String} (h : kindShape json = .ok kind) :
    kind ≠ "" := by
  unfold kindShape at h
  split at h
  · cases h
  · split at h
    · cases h
    · rename_i hne
      cases h
      rintro rfl
      exact hne rfl

/-- The name of a viewport is one of three. -/
theorem mem_of_viewportNameShape {json : Json} {name : String}
    (h : viewportNameShape json = .ok name) : name ∈ Failure.viewportNames := by
  unfold viewportNameShape at h
  split at h
  · split at h
    · rename_i hname
      cases h
      exact List.contains_iff_mem.1 hname
    · cases h
  · cases h

/-- A zoom is within its bounds. -/
theorem bounds_of_zoomShape {json : Json} {zoom : Int} (h : zoomShape json = .ok zoom) :
    leastZoom ≤ zoom ∧ zoom ≤ greatestZoom := by
  unfold zoomShape at h
  split at h
  · cases h
  · split at h
    · cases h
    split at h
    · cases h
    · cases h
      exact ⟨Int.not_lt.1 ‹_›, Int.not_lt.1 ‹_›⟩

/-- Settings that a viewport can have. -/
structure Settings (viewport : String × Int) : Prop where
  name : viewport.1 ∈ Failure.viewportNames
  least : leastZoom ≤ viewport.2
  greatest : viewport.2 ≤ greatestZoom

/-- The defaults are such settings too, so no field has to be given. -/
theorem settings_of_viewportShape {json : Json} {viewport : String × Int}
    (h : viewportShape json = .ok viewport) : Settings viewport := by
  unfold viewportShape at h
  split at h
  · obtain ⟨p, hp, rfl⟩ := exists_of_map h
    obtain ⟨hname, hrest⟩ := both_eq_ok hp
    obtain ⟨hzoom, -⟩ := both_eq_ok hrest
    have hn : p.1 ∈ Failure.viewportNames := by
      rcases field_cases hname with heq | ⟨json, -, hjson⟩
      · rw [heq]
        exact List.mem_cons_self
      · exact mem_of_viewportNameShape hjson
    rcases field_cases hzoom with heq | ⟨json, -, hjson⟩
    · exact ⟨hn, by simp [heq, leastZoom], by simp [heq, greatestZoom]⟩
    · exact ⟨hn, (bounds_of_zoomShape hjson).1, (bounds_of_zoomShape hjson).2⟩
  · cases h

/-- What the shape check has seen to in an element: its kind is not empty, and its props are part of
what has been read. -/
theorem checked_of_elementShape {json : Json} {shape : ElementShape}
    (h : elementShape json = .ok shape) :
    shape.kind ≠ "" ∧ (json.fits = true → Json.membersFit shape.props = true) := by
  unfold elementShape at h
  split at h
  · rename_i members
    obtain ⟨p, hp, rfl⟩ := exists_of_map h
    obtain ⟨hkind, hrest⟩ := both_eq_ok hp
    obtain ⟨hprops, -⟩ := both_eq_ok hrest
    constructor
    · split at hkind
      · cases hkind
      · exact ne_of_kindShape hkind
    · intro hfits
      rcases field_cases hprops with heq | ⟨props, hm, hjson⟩
      · show Json.membersFit p.2.1 = true
        rw [heq]
        rfl
      · have hprop := Json.membersFit_iff.1 hfits _ hm
        rwa [eq_of_membersShape hjson] at hprop
  · cases h

theorem elements_of_documentShape {members : List (String × Json)} {shape : Shape}
    (h : documentShape (.object members) = .ok shape) :
    field members "elements" [] (mapShape elementShape) = .ok shape.elements := by
  obtain ⟨p, hp, rfl⟩ := exists_of_map h
  obtain ⟨-, hp⟩ := both_eq_ok hp
  obtain ⟨-, hp⟩ := both_eq_ok hp
  exact (both_eq_ok hp).1

/-- What the shape check has seen to. -/
structure Shape.Checked (shape : Shape) : Prop where
  kind_ne : ∀ p ∈ shape.elements, p.2.kind ≠ ""
  fits : ∀ p ∈ shape.elements, Json.membersFit p.2.props = true
  viewport : Settings (shape.viewport, shape.zoom)

/-- The faults are gathered field by field; where there are none, every field has passed its check.
-/
theorem checked_of_documentShape {json : Json} {shape : Shape} (hfits : json.fits = true)
    (h : documentShape json = .ok shape) : shape.Checked := by
  unfold documentShape at h
  split at h
  · rename_i members
    obtain ⟨p, hp, rfl⟩ := exists_of_map h
    obtain ⟨-, hp⟩ := both_eq_ok hp
    obtain ⟨-, hp⟩ := both_eq_ok hp
    obtain ⟨helements, hp⟩ := both_eq_ok hp
    obtain ⟨-, hp⟩ := both_eq_ok hp
    obtain ⟨hviewport, -⟩ := both_eq_ok hp
    have hshapes : ∀ q ∈ p.2.2.1,
        q.2.kind ≠ "" ∧ Json.membersFit q.2.props = true := by
      rcases field_cases helements with heq | ⟨json, hm, hjson⟩
      · simp [heq]
      · intro q hq
        obtain ⟨others, m, rfl, hmember, hshape⟩ := shape_of_mapShape hjson q hq
        obtain ⟨hkind, hprops⟩ := checked_of_elementShape hshape
        have hjson := Json.membersFit_iff.1 hfits _ hm
        exact ⟨hkind, hprops (Json.membersFit_iff.1 hjson m hmember)⟩
    refine ⟨fun q hq => (hshapes q hq).1, fun q hq => (hshapes q hq).2, ?_⟩
    · rcases field_cases hviewport with heq | ⟨json, -, hjson⟩
      · simp only [heq]
        exact ⟨List.mem_cons_self, by simp [leastZoom], by simp [greatestZoom]⟩
      · exact settings_of_viewportShape hjson
  · cases h

/-! ## The elements -/

mutual

/-- A value made of JSON that fits has a text. -/
theorem textFault?_ofJson : ∀ {json : Json}, json.fits = true →
    (Value.ofJson json).textFault? = none
  | .null, _ | .bool _, _ | .float _, _ | .str _, _ => rfl
  | .int _, h => if_pos h
  | .array _, h => itemsFault?_ofJson h
  | .object _, h => fieldsFault?_ofJson h

theorem itemsFault?_ofJson : ∀ {items : List Json}, Json.itemsFit items = true →
    Value.itemsFault? (Value.ofJsonItems items) = none
  | [], _ => rfl
  | _ :: _, h => by
    obtain ⟨hitem, hrest⟩ := Bool.and_eq_true_iff.1 h
    rw [Value.ofJsonItems, Value.itemsFault?, textFault?_ofJson hitem, itemsFault?_ofJson hrest]
    rfl

theorem fieldsFault?_ofJson : ∀ {members : List (String × Json)}, Json.membersFit members = true →
    Value.fieldsFault? (Value.ofJsonMembers members) = none
  | [], _ => rfl
  | _ :: _, h => by
    obtain ⟨hvalue, hrest⟩ := Bool.and_eq_true_iff.1 h
    rw [Value.ofJsonMembers, Value.fieldsFault?, textFault?_ofJson hvalue,
      fieldsFault?_ofJson hrest]
    rfl

end

/-- A check that fails, if it does, with a fault of the document. -/
def Refuses {α : Type} (result : Except Failure α) : Prop :=
  ∀ failure, result = .error failure → ∃ fault, failure = .rejected (.document fault)

section Refuses

variable {α β : Type}

theorem refuses_ok (a : α) : Refuses (.ok a : Except Failure α) :=
  fun _ h => nomatch h

/-- That is what it is to refuse. -/
theorem refuses_refuse (fault : DocumentFault) : Refuses (refuse fault : Except Failure α) := by
  intro failure h
  cases h
  exact ⟨fault, rfl⟩

/-- A step after a check may use that the check has passed. -/
theorem Refuses.bind {x : Except Failure α} {f : α → Except Failure β} (hx : Refuses x)
    (hf : ∀ {a}, x = .ok a → Refuses (f a)) : Refuses (x >>= f) := by
  cases x with
  | error failure =>
    intro other h
    cases h
    exact hx _ rfl
  | ok a => exact hf rfl

end Refuses

/-- A fault that quotes a value is one of the document as soon as the value has a text. -/
theorem refuses_refuseShown {fault : Value → DocumentFault} {value : Value}
    (h : value.textFault? = none) : Refuses (refuseShown fault value : Except Failure α) := by
  rw [refuseShown, h]
  exact refuses_refuse _

/-- Every kind of JSON that is no value of a prop is refused by name. -/
theorem refuses_propOfJson (element name : String) {json : Json} (hfits : json.fits = true) :
    Refuses (propOfJson element name json) := by
  unfold propOfJson
  split
  · split
    · exact refuses_ok _
    · exact refuses_refuse _
  · exact refuses_refuse _
  · exact refuses_refuseShown rfl
  · exact refuses_refuseShown (textFault?_ofJson hfits)
  · exact refuses_ok _

theorem refuses_propsOfJson (element : String) {props : List (String × Json)}
    (hfits : Json.membersFit props = true) : Refuses (propsOfJson element props) := by
  induction props with
  | nil => exact refuses_ok _
  | cons p rest ih =>
    obtain ⟨name, json⟩ := p
    obtain ⟨hjson, hrest⟩ := Bool.and_eq_true_iff.1 hfits
    refine (refuses_propOfJson element name hjson).bind fun _ => ?_
    exact (ih hrest).bind fun _ => refuses_ok _

/-- A value of a prop that a document may have: null is none, and integers are not too long. -/
def ReadValue (value : Value) : Prop :=
  value ≠ .null ∧ value.textFault? = none

/-- What is let through is no null, and can be written. -/
theorem readValue_of_propOfJson {element name : String} {json : Json} {value : Value}
    (hfits : json.fits = true) (h : propOfJson element name json = .ok value) :
    ReadValue value := by
  unfold propOfJson at h
  split at h
  · split at h
    · cases h
      exact ⟨nofun, rfl⟩
    · cases h
  · cases h
  · cases h
  · rw [refuseShown, textFault?_ofJson hfits] at h
    cases h
  · rename_i hnull _
    cases h
    refine ⟨fun heq => ?_, textFault?_ofJson hfits⟩
    cases json with
    | null => exact hnull rfl
    | _ => cases heq

theorem readValue_of_propsOfJson {element : String} {props : List (String × Json)}
    {values : List (String × Value)} (hfits : Json.membersFit props = true)
    (h : propsOfJson element props = .ok values) : ∀ p ∈ values, ReadValue p.2 := by
  induction props generalizing values with
  | nil =>
    cases h
    simp
  | cons p rest ih =>
    obtain ⟨name, json⟩ := p
    obtain ⟨hjson, hrest⟩ := Bool.and_eq_true_iff.1 hfits
    obtain ⟨value, hvalue, h⟩ := exists_of_bind h
    obtain ⟨others, hothers, h⟩ := exists_of_bind h
    cases h
    exact List.forall_mem_cons.2 ⟨readValue_of_propOfJson hjson hvalue, ih hrest hothers⟩

/-- Repeated names leave values that are read. -/
theorem readValue_of_mem_ofList {values : List (String × Value)}
    (h : ∀ p ∈ values, ReadValue p.2) : ∀ p ∈ (OrderedMap.ofList values).entries, ReadValue p.2 :=
  fun _ hp => h _ (OrderedMap.mem_of_get?_ofList ((OrderedMap.mem_entries_iff _ _ _).1 hp))

/-- An element is refused for its id, for a prop that is no value, or by the check of its props. -/
theorem refuses_elementOfShape (id : String) {shape : ElementShape}
    (hfits : Json.membersFit shape.props = true) : Refuses (elementOfShape id shape) := by
  unfold elementOfShape
  split
  · exact refuses_refuse _
  · refine (refuses_propsOfJson id hfits).bind fun {values} hvalues => ?_
    have hread := readValue_of_mem_ofList (readValue_of_propsOfJson hfits hvalues)
    dsimp only
    split
    · -- Every value that is refused can be shown.
      rename_i fault hfault
      obtain ⟨p, hp, hcheck⟩ := Props.exists_of_check_error hfault
      have hnone : fault.textFault? = none := by
        cases htext : fault.textFault? with
        | none => rfl
        | some wanting =>
          exact absurd ((hread p hp).2.symm.trans (Props.textFault?_of_checkOne hcheck htext)) nofun
      rw [hnone]
      exact refuses_refuse _
    · exact refuses_ok _

theorem refuses_elementsOfShape {shapes : List (String × ElementShape)}
    (hfits : ∀ p ∈ shapes, Json.membersFit p.2.props = true) :
    Refuses (elementsOfShape shapes) := by
  induction shapes with
  | nil => exact refuses_ok _
  | cons p rest ih =>
    obtain ⟨id, shape⟩ := p
    obtain ⟨hshape, hrest⟩ := List.forall_mem_cons.1 hfits
    refine (refuses_elementOfShape id hshape).bind fun _ => ?_
    exact (ih hrest).bind fun _ => refuses_ok _

/-- The check of structure adds what is asked of style attributes. -/
theorem saveable_of_elementOfShape {id : String} {shape : ElementShape} {e : Element}
    (hkind : shape.kind ≠ "") (hfits : Json.membersFit shape.props = true)
    (h : elementOfShape id shape = .ok e)
    (hstyle : ∀ category ∈ e.style.keys, Style.isKnown category = true) :
    Saveable e ∧ ∀ q ∈ e.props.entries, q.2.textFault? = none := by
  unfold elementOfShape at h
  split at h
  · cases h
  rename_i hid
  obtain ⟨values, hvalues, h⟩ := exists_of_bind h
  have hread := readValue_of_mem_ofList (readValue_of_propsOfJson hfits hvalues)
  dsimp only at h
  split at h
  · split at h <;> cases h
  rename_i hcheck
  cases h
  refine ⟨⟨by simpa using hid, hkind, hcheck, fun p hp => (hread p hp).1, ?_⟩,
    fun p hp => (hread p hp).2⟩
  · rintro ⟨category, value⟩ hp
    have hm := OrderedMap.mem_of_get?_ofList ((OrderedMap.mem_entries_iff _ _ _).1 hp)
    obtain ⟨q, -, heq⟩ := List.mem_map.1 hm
    cases heq
    exact ⟨hstyle _ (List.mem_map_of_mem hp), q.2, rfl⟩

/-- Every element comes from the shape under its id. -/
theorem exists_shape_of_mem {shapes : List (String × ElementShape)}
    {elements : List (String × Element)} (h : elementsOfShape shapes = .ok elements) :
    ∀ p ∈ elements, ∃ shape, (p.1, shape) ∈ shapes ∧ elementOfShape p.1 shape = .ok p.2 := by
  induction shapes generalizing elements with
  | nil =>
    cases h
    simp
  | cons first rest ih =>
    obtain ⟨id, shape⟩ := first
    obtain ⟨e, he, h⟩ := exists_of_bind h
    obtain ⟨es, hes, h⟩ := exists_of_bind h
    cases h
    refine List.forall_mem_cons.2 ⟨⟨shape, List.mem_cons_self, he⟩, fun p hp => ?_⟩
    obtain ⟨s, hs, hp⟩ := ih hes p hp
    exact ⟨s, List.mem_cons_of_mem _ hs, hp⟩

/-! ## The document -/

variable {catalog : Catalog} {s : Snapshot}

/-- Ids that pass their check make sense to every source. -/
theorem exists_ofPage_valid {page : Page} (catalog : Catalog) (ids : IdSource)
    (h : ∀ id ∈ page.elements.keys, Element.isValidId id = true) :
    ∃ after, Draft.ofPage catalog ids page = .ok ⟨catalog.orBuiltIn, after, page⟩ :=
  IdSource.exists_ofPage catalog fun id hid => ids.reads_of_isValidId (h id hid)

/-- The id is the first thing that is checked of an element. -/
theorem isValidId_of_elementOfShape {id : String} {shape : ElementShape} {e : Element}
    (h : elementOfShape id shape = .ok e) : Element.isValidId id = true := by
  unfold elementOfShape at h
  split at h
  · cases h
  · rename_i hid
    simpa using hid

/-- So there is no element under an id that is not valid. -/
theorem isValidId_of_elementsOfShape {shapes : List (String × ElementShape)}
    {elements : List (String × Element)} (h : elementsOfShape shapes = .ok elements) :
    ∀ p ∈ shapes, Element.isValidId p.1 = true := by
  induction shapes generalizing elements with
  | nil => simp
  | cons first rest ih =>
    obtain ⟨id, shape⟩ := first
    obtain ⟨e, he, h⟩ := exists_of_bind h
    obtain ⟨es, hes, -⟩ := exists_of_bind h
    exact List.forall_mem_cons.2 ⟨isValidId_of_elementOfShape he, ih hes⟩

/-- Nothing goes wrong on the way but what is a fault of the document. -/
theorem refuses_ofJson {json : Json} (hfits : json.fits = true) (catalog : Catalog) :
    Refuses (ofJson json catalog) := by
  unfold ofJson
  split
  · exact refuses_refuse _
  · exact refuses_refuse _
  · rename_i shape hshape
    have hchecked := checked_of_documentShape hfits hshape
    refine (refuses_elementsOfShape hchecked.fits).bind fun {elements} he => ?_
    -- The one step that is not a check cannot fail: the ids have been checked before.
    obtain ⟨ids, hdraft⟩ := @exists_ofPage_valid ⟨.ofList elements, shape.root⟩ catalog {}
      fun id hid => by
        obtain ⟨p, hp, rfl⟩ := List.mem_map.1 (OrderedMap.mem_keys_ofList.1 hid)
        obtain ⟨_, -, hshape⟩ := exists_shape_of_mem he p hp
        exact isValidId_of_elementOfShape hshape
    rw [hdraft, ok_bind]
    split
    · exact refuses_ok _
    · exact refuses_refuse _

/-- Each part of being valid is owed to one of the checks that were passed. -/
theorem valid_of_ofJson {json : Json} (hfits : json.fits = true)
    (h : ofJson json catalog = .ok s) : DocumentValid catalog s ∧ Writable s := by
  have hkeyed : s.page.Keyed := keyed_of_ofJson h
  obtain ⟨shape, elements, hshape, he, hproblems, rfl⟩ := snapshot_of_ofJson h
  have hchecked := checked_of_documentShape hfits hshape
  have hsaveable : ∀ p ∈ (OrderedMap.ofList elements).entries,
      Saveable p.2 ∧ ∀ q ∈ p.2.props.entries, q.2.textFault? = none := by
    rintro ⟨id, e⟩ hp
    have hget := (OrderedMap.mem_entries_iff _ _ _).1 hp
    obtain ⟨_, hm, helement⟩ := exists_shape_of_mem he _ (OrderedMap.mem_of_get?_ofList hget)
    have hadmitted : Page.Admitted catalog.orBuiltIn false e :=
      (Page.problems_eq_nil_iff.1 hproblems).2 hget
    exact saveable_of_elementOfShape (hchecked.kind_ne _ hm) (hchecked.fits _ hm) helement
      hadmitted.style_known
  refine ⟨⟨hkeyed, fun p hp => (hsaveable p hp).1, hproblems, ?_, ?_⟩,
    fun p hp => (hsaveable p hp).2⟩
  · intro id hid
    exact (List.mem_filter.1 hid).2
  · obtain ⟨hname, hleast, hgreatest⟩ := hchecked.viewport
    exact ⟨shape.viewport, shape.zoom, hname, hleast, hgreatest, .refl _⟩

/-- A text is refused with a fault of the document, or for a numeral of too many digits. -/
theorem read_error_cases {text : String} {failure : Failure}
    (h : read text catalog = .error failure) :
    (∃ fault, failure = .rejected (.document fault)) ∨
      ∃ digits, Number.digitLimit < digits ∧ failure = .longNumeral digits := by
  unfold read at h
  split at h
  · rename_i hfault
    split at h
    · rename_i digits hcause
      cases h
      exact Or.inr ⟨digits, Json.lt_of_read_longNumeral hfault hcause, rfl⟩
    · exact Or.inl (refuses_refuse _ _ h)
  · rename_i hread
    exact Or.inl (refuses_ofJson (Json.fits_of_read hread) catalog _ h)
  · exact Or.inl (refuses_refuse _ _ h)

/-- A snapshot that has been read is valid, and can be saved. -/
theorem valid_of_read {text : String} (h : read text catalog = .ok s) :
    DocumentValid catalog s ∧ Writable s := by
  unfold read at h
  split at h
  · split at h <;> cases h
  · rename_i hread
    exact valid_of_ofJson (Json.fits_of_read hread) h
  · cases h

/-- What was saved of a page is refused if one of the ids is not valid. -/
theorem isValidId_of_read_saved {again : Snapshot} (hfits : s.saved.fits = true)
    (h : read (s.saved.pretty ++ "\n") catalog = .ok again) {id : String}
    (hc : s.page.contains id = true) : Element.isValidId id = true := by
  obtain ⟨members, hsaved, hlookup⟩ := elements_of_saved s
  rw [read, Json.read_pretty (distinct_saved s) hfits, hsaved] at h
  obtain ⟨shape, elements, hshape, helements, -⟩ := snapshot_of_ofJson h
  -- The ids that were checked are the keys of the member that holds the elements, and saving has
  -- put the ids of the page there.
  have hfield := elements_of_documentShape hshape
  rw [field, hlookup] at hfield
  have hkeys := keys_of_all hfield
  rw [keys_savedMembers] at hkeys
  obtain ⟨e, he⟩ := Page.contains_iff_get?.1 hc
  have hm : id ∈ shape.elements.map Prod.fst := by
    rw [hkeys]
    exact List.mem_map_of_mem (Json.mem_byKey.2 ((OrderedMap.mem_entries_iff _ _ _).2 he))
  obtain ⟨p, hp, rfl⟩ := List.mem_map.1 hm
  exact isValidId_of_elementsOfShape helements p hp

/-! ## Behind the gate -/

/-- A viewport that is valid is not empty, so no default takes its place. -/
theorem ViewportValid.isEmpty_eq {viewport : Viewport} (h : ViewportValid viewport) :
    viewport.isEmpty = false := by
  obtain ⟨name, zoom, -, -, -, hsame⟩ := h
  have hperm := hsame.perm.length_eq
  cases hentries : viewport.entries with
  | nil =>
    rw [hentries] at hperm
    cases hperm
  | cons p rest => rw [OrderedMap.isEmpty, hentries, List.isEmpty_cons]

/-- The keys of a valid snapshot are the ids of its elements. -/
theorem isValidId_of_mem_keys (h : DocumentValid catalog s) :
    ∀ id ∈ s.page.elements.keys, Element.isValidId id = true := by
  intro id hid
  obtain ⟨e, he⟩ := (OrderedMap.mem_keys_iff _ _).1 hid
  have hvalid := (h.saveable _ ((s.page.elements.mem_entries_iff _ _).2 he)).id_valid
  rwa [h.keyed he] at hvalid

/-- What the reader has checked of props is all that a load asks of them. -/
theorem propFaults_eq_nil (h : DocumentValid catalog s) :
    Session.propFaults s.page.elements.values = [] := by
  apply List.filterMap_eq_nil_iff.2
  intro e he
  obtain ⟨p, hp, rfl⟩ := List.mem_map.1 he
  rw [(h.saveable p hp).props_checked]

/-- A load finds nothing wrong with a valid snapshot. -/
theorem checkLoad_valid (h : DocumentValid catalog s) :
    Session.checkLoad catalog.orBuiltIn s = .ok () := by
  obtain ⟨ids, hdraft⟩ := exists_ofPage_valid catalog.orBuiltIn {} (isValidId_of_mem_keys h)
  rw [Session.checkLoad, hdraft, ok_bind, Catalog.orBuiltIn_orBuiltIn, h.consistent,
    propFaults_eq_nil h]
  rfl

/-- A valid snapshot is loaded by every session with its catalog, and is what is shown then. -/
theorem load_valid {session : Session} (h : DocumentValid catalog s)
    (hcatalog : session.draft.catalog = catalog.orBuiltIn) :
    ∃ after, Session.load s session = .ok () after ∧ after.snapshot = s := by
  obtain ⟨ids, hdraft⟩ := exists_ofPage_valid session.draft.catalog session.draft.ids
    (isValidId_of_mem_keys h)
  have hcheck : Session.checkLoad session.draft.catalog s = .ok () := by
    rw [hcatalog]
    exact checkLoad_valid h
  have hselection : s.selection.filter s.page.contains = s.selection :=
    List.filter_eq_self.2 h.selected
  have hviewport := Viewport.orStandard_eq (ViewportValid.isEmpty_eq h.viewport)
  set restored : Session := { session with
    draft := ⟨session.draft.catalog.orBuiltIn, ids, s.page⟩
    selection := s.selection
    viewport := s.viewport } with hr
  have hrestore : Session.restore s session = .ok () restored := by
    rw [Session.restore, hdraft]
    dsimp only
    rw [hselection, hviewport]
  refine ⟨restored.changed, ?_, ?_⟩
  · show (Session.lift (Session.checkLoad session.draft.catalog s) >>= _) session = _
    rw [hcheck]
    exact (bind_of_ok rfl _).trans (bind_of_ok hrestore _)
  · rw [Session.snapshot_changed, hr, Session.snapshot, Draft.snapshot, Snapshot.ofPage, hselection,
      hviewport]

/-- What can be done with a snapshot that has been read. -/
structure Accepted (catalog : Catalog) (s : Snapshot) : Prop where
  valid : DocumentValid catalog s
  writable : Writable s
  /-- A session that starts empty loads it and shows it. -/
  loaded : ∀ limit preferences, ∃ session after,
    Session.start catalog .empty limit preferences = .ok session ∧
      Session.load s session = .ok () after ∧ after.snapshot = s
  /-- Its text is read as the same content, and that is saved as the same text. -/
  saved : ∃ text s', write s = .ok text ∧ read text catalog = .ok s' ∧ s'.SameContent s ∧
    write s' = .ok text

/-- Snapshots of the same content are saved as one text. -/
theorem write_congr {other : Catalog} {t : Snapshot} (hs : DocumentValid catalog s)
    (ht : DocumentValid other t) (hws : Writable s) (hwt : Writable t) (h : s.SameContent t) :
    write s = write t := by
  rw [write_eq hs hws, write_eq ht hwt, Json.pretty, Json.pretty,
    Json.render_congr Json.prettyStyle 0 (arranged_snapshot h)]

/-- All of it follows from the snapshot being valid; that it has been read does not matter any more.
-/
theorem accepted_of_valid (h : DocumentValid catalog s) (hw : Writable s) :
    Accepted catalog s where
  valid := h
  writable := hw
  loaded limit preferences := by
    obtain ⟨session, hstart, hcatalog⟩ : ∃ session,
        Session.start catalog .empty limit preferences = .ok session ∧
          session.draft.catalog = catalog.orBuiltIn := ⟨_, rfl, rfl⟩
    obtain ⟨after, hload, hafter⟩ := load_valid h hcatalog
    exact ⟨session, after, hstart, hload, hafter⟩
  saved := by
    obtain ⟨text, s', hwrite, hread, hsame⟩ := read_write h hw
    obtain ⟨hvalid, hw'⟩ := valid_of_read hread
    refine ⟨text, s', hwrite, hread, hsame, ?_⟩
    rw [write_congr hvalid h hw' hw hsame, hwrite]

/-- Every text is refused with a fault of the document or read as a snapshot that can be loaded,
saved and read again; there is no third way but a numeral of too many digits. -/
theorem read_gate (text : String) (catalog : Catalog) :
    (∃ fault, read text catalog = .error (.rejected (.document fault))) ∨
      (∃ digits, Number.digitLimit < digits ∧ read text catalog = .error (.longNumeral digits)) ∨
      ∃ s, read text catalog = .ok s ∧ Accepted catalog s := by
  cases h : read text catalog with
  | error failure =>
    rcases read_error_cases h with ⟨fault, rfl⟩ | ⟨digits, hdigits, rfl⟩
    · exact Or.inl ⟨fault, rfl⟩
    · exact Or.inr (Or.inl ⟨digits, hdigits, rfl⟩)
  | ok s =>
    obtain ⟨hvalid, hw⟩ := valid_of_read h
    exact Or.inr (Or.inr ⟨s, rfl, accepted_of_valid hvalid hw⟩)

end PageBuilder.Archive
