import PageBuilder.Proofs.Archive.Content
import PageBuilder.Proofs.Archive.Keys
import PageBuilder.Proofs.Json.RoundTrip
import PageBuilder.Proofs.Page.IdSource
import PageBuilder.Proofs.Page.Reshape

/-!
# Saving and loading

What the writer saves of a valid snapshot passes the four gates of the reader: the text is JSON, the
JSON has the shape of a document, its ids and props pass the checks, and the page it makes is the
page saved, its entries in the order of their keys (`read_write`).  With that, a text has one
content, and by `arranged_snapshot` a content has one text (`save_load`).  All of this is about
snapshots whose integers can be written; of any other there is no text.
-/

namespace PageBuilder

open Json

/-! ## The shape of what is saved -/

namespace Archive

/-- If every part fits, so does the list of them. -/
theorem all_map_ok {α β : Type} {f : α → Shaped β} {g : α → β} {xs : List α}
    (h : ∀ x ∈ xs, f x = .ok (g x)) : Shaped.all (xs.map f) = .ok (xs.map g) := by
  induction xs with
  | nil => rfl
  | cons x rest ih =>
    rw [List.map_cons, Shaped.all, h x List.mem_cons_self,
      ih fun y hy => h y (List.mem_cons_of_mem _ hy)]
    rfl

/-- An id that may be missing is saved as a text or as null. -/
theorem optionalShape_optionalJson (s : Option String) :
    optionalShape (optionalJson s) = .ok s := by
  cases s <;> rfl

theorem stringsShape_map_str (ss : List String) :
    stringsShape (.array (ss.map .str)) = .ok ss := by
  have hall : Shaped.all (ss.map (stringShape ∘ .str)) = .ok (ss.map id) :=
    all_map_ok fun _ _ => rfl
  rw [stringsShape, List.map_map, hall, List.map_id]

/-- A saved map has the shape of a map, entry by entry. -/
theorem mapShape_savedMembers {α β : Type} {shape : Json → Shaped β} {json : α → Json}
    {g : α → β} {entries : List (String × α)} (h : ∀ p ∈ entries, shape (json p.2) = .ok (g p.2)) :
    mapShape shape (.object (savedMembers json entries)) =
      .ok (entries.map fun p => (p.1, g p.2)) := by
  show Shaped.all ((entries.map fun p => (p.1, json p.2)).map fun m =>
    (fun x => (m.1, x)) <$> shape m.2) = _
  rw [List.map_map]
  apply all_map_ok
  intro p hp
  show (fun x => (p.1, x)) <$> shape (json p.2) = _
  rw [h p hp]
  rfl

/-- No member is one too many if all keys are expected. -/
theorem extraShape_ok {members : List (String × Json)} {keys : List String}
    (h : ∀ m ∈ members, m.1 ∈ keys) : extraShape members keys = .ok () := by
  have hnone : members.filter (fun m => !keys.contains m.1) = [] := by
    rw [List.filter_eq_nil_iff]
    intro m hm
    simp [h m hm]
  rw [extraShape, hnone]
  rfl

/-- That members are sorted does not make them more. -/
theorem extraShape_byKey (members : List (String × Json)) :
    extraShape (byKey members) (members.map Prod.fst) = .ok () :=
  extraShape_ok fun _ hm => List.mem_map_of_mem (mem_byKey.1 hm)

/-- Nor does it matter to the look-up of a field, where no key is given twice. -/
theorem field_byKey {α : Type} {members : List (String × Json)}
    (hn : (members.map Prod.fst).Nodup) (key : String) (default : α) (shape : Json → Shaped α) :
    field (byKey members) key default shape = field members key default shape := by
  rw [field, field, lookup_byKey hn]

end Archive

/-- The text of a style attribute that can be saved. -/
def Value.savedText : Value → String
  | .str s => s
  | _ => ""

/-- The shape in which an element is read back. -/
def Element.savedShape (e : Element) : Archive.ElementShape :=
  ⟨e.kind, savedMembers Value.saved (byKey e.props.entries),
    (byKey e.style.entries).map fun p => (p.1, p.2.savedText), e.children, e.parent⟩

namespace Archive

/-- The value of a prop holds no object of more than one member, so there is nothing to sort in it.
-/
theorem arranged_saved (value : Value) : value.saved.arranged = value.saved := by
  cases value with
  | binding e =>
    cases e <;> simp [Value.saved, arranged, arrangedMembers, byKey]
  | _ => rfl

theorem arranged_savedValues (entries : List (String × Value)) :
    arranged (.object (savedMembers Value.saved entries)) =
      .object (savedMembers Value.saved (byKey entries)) := by
  rw [arranged_object, savedMembers, savedMembers, ← map_byKey, List.map_map]
  simp only [Function.comp_def, arranged_saved]

theorem arranged_children (ss : List String) :
    arranged (.array (ss.map .str)) = .array (ss.map .str) := by
  rw [arranged, arrangedItems_eq, List.map_map]
  rfl

/-- There is nothing to sort in an id either. -/
theorem arranged_optionalJson (s : Option String) :
    (optionalJson s).arranged = optionalJson s := by
  cases s <;> rfl

/-- An element that can be saved has its shape when it is read: every member is there, and none is
one too many. -/
theorem elementShape_saved {e : Element} (h : Saveable e) :
    elementShape e.saved.arranged = .ok e.savedShape := by
  have hkind : kindShape (.str e.kind) = .ok e.kind := by
    simp [kindShape, stringShape, h.kind_ne]
  have hstyle : mapShape stringShape (.object (savedMembers Value.saved (byKey e.style.entries))) =
      .ok ((byKey e.style.entries).map fun p => (p.1, p.2.savedText)) := by
    apply mapShape_savedMembers
    rintro ⟨category, value⟩ hm
    obtain ⟨-, s, rfl⟩ := h.style_text _ (mem_byKey.1 hm)
    rfl
  set members : List (String × Json) := [("kind", .str e.kind),
    ("props", .object (savedMembers Value.saved (byKey e.props.entries))),
    ("style", .object (savedMembers Value.saved (byKey e.style.entries))),
    ("children", .array (e.children.map .str)), ("parent", optionalJson e.parent)] with hmembers
  have hsaved : e.saved.arranged = .object (byKey members) := by
    rw [Element.saved, arranged]
    simp only [arrangedMembers, arranged_savedValues, arranged_children, arranged_optionalJson]
    rfl
  have hn : (members.map Prod.fst).Nodup := by
    rw [hmembers]
    simp
  have hextra : extraShape (byKey members) ["kind", "props", "style", "children", "parent"] =
      .ok () := extraShape_byKey members
  rw [hsaved, elementShape, lookup_byKey hn, field_byKey hn, field_byKey hn, field_byKey hn,
    field_byKey hn, hextra]
  simp only [hmembers, field, lookup_cons_pair, hkind, hstyle, membersShape, stringsShape_map_str,
    optionalShape_optionalJson, String.reduceEq, if_true, if_false]
  rfl

theorem lookup_savedMembers {α : Type} (json : α → Json) (entries : List (String × α))
    (key : String) : (savedMembers json entries).lookup key = (entries.lookup key).map json :=
  lookup_map_snd (fun _ => json) key entries

variable {catalog : Catalog} {s t : Snapshot}

/-- The settings that the viewport of a document has. -/
theorem exists_settings (h : DocumentValid catalog s) :
    ∃ name zoom, viewportShape
        (arranged (.object (savedMembers Value.saved s.viewport.entries))) = .ok (name, zoom) ∧
      s.viewport.Same (.ofList [("name", .str name), ("zoom", .int zoom)]) := by
  obtain ⟨name, zoom, hname, hleast, hgreatest, hsame⟩ := h.viewport
  refine ⟨name, zoom, ?_, hsame⟩
  have hn : (([("name", .str name), ("zoom", .int zoom)] : List (String × Value)).map
      Prod.fst).Nodup := by simp
  -- Sorted or not, the settings are the two that the reader looks for.
  have hget (key : String) : (byKey s.viewport.entries).lookup key =
      ([("name", .str name), ("zoom", .int zoom)] : List (String × Value)).lookup key := by
    rw [lookup_byKey s.viewport.nodup_keys, ← OrderedMap.get?_ofList_of_nodup hn]
    exact hsame key
  have hextra : extraShape (savedMembers Value.saved (byKey s.viewport.entries))
      ["name", "zoom"] = .ok () := by
    apply extraShape_ok
    intro m hm
    have hkey := List.mem_map_of_mem (f := Prod.fst) hm
    rw [keys_savedMembers, ← not_not (a := m.1 ∈ _), ← lookup_eq_none_iff_not_mem, hget,
      lookup_eq_none_iff_not_mem, not_not] at hkey
    exact hkey
  have hnameShape : viewportNameShape (.str name) = .ok name := by
    rw [viewportNameShape, if_pos (List.contains_iff_mem.2 hname)]
  have hzoomShape : zoomShape (.int zoom) = .ok zoom := by
    simp only [zoomShape, integerShape]
    rw [if_neg (by simpa [leastZoom] using hleast),
      if_neg (by simpa [greatestZoom] using hgreatest)]
  rw [arranged_savedValues, viewportShape, hextra]
  simp only [field, lookup_savedMembers, hget, lookup_cons_pair, String.reduceEq, if_true,
    if_false, Option.map_some, Value.saved, hnameShape, hzoomShape]
  rfl

theorem arranged_savedElements (entries : List (String × Element)) :
    arranged (.object (savedMembers Element.saved entries)) =
      .object (savedMembers (fun e => e.saved.arranged) (byKey entries)) := by
  rw [arranged_object, savedMembers, savedMembers, ← map_byKey, List.map_map]
  rfl

/-- The members of the saved JSON in the order in which they are printed. -/
theorem arranged_snapshot_saved (s : Snapshot) : s.saved.arranged = .object (byKey [
    ("version", .int version), ("root", optionalJson s.page.root),
    ("elements",
      .object (savedMembers (fun e => e.saved.arranged) (byKey s.page.elements.entries))),
    ("selection", .array (s.selection.map .str)),
    ("viewport", arranged (.object (savedMembers Value.saved s.viewport.entries)))]) := by
  rw [Snapshot.saved, arranged]
  simp only [arrangedMembers, arranged_savedElements, arranged_children, arranged_optionalJson]
  rfl

/-- Where the elements stand in the text of a snapshot. -/
theorem elements_of_saved (s : Snapshot) : ∃ members, s.saved.arranged = .object members ∧
    members.lookup "elements" = some (.object
      (savedMembers (fun e => e.saved.arranged) (byKey s.page.elements.entries))) := by
  refine ⟨_, arranged_snapshot_saved s, ?_⟩
  rw [lookup_byKey (by simp)]
  rfl

/-- The saved JSON has the shape of a document. -/
theorem documentShape_saved (h : DocumentValid catalog s) :
    ∃ name zoom, documentShape s.saved.arranged = .ok ⟨s.page.root,
        (byKey s.page.elements.entries).map fun p => (p.1, p.2.savedShape), s.selection, name,
        zoom⟩ ∧
      s.viewport.Same (.ofList [("name", .str name), ("zoom", .int zoom)]) := by
  obtain ⟨name, zoom, hviewport, hsame⟩ := exists_settings h
  refine ⟨name, zoom, ?_, hsame⟩
  have helements : mapShape elementShape
      (.object (savedMembers (fun e => e.saved.arranged) (byKey s.page.elements.entries))) =
      .ok ((byKey s.page.elements.entries).map fun p => (p.1, p.2.savedShape)) := by
    apply mapShape_savedMembers
    exact fun p hp => elementShape_saved (h.saveable p (mem_byKey.1 hp))
  set members : List (String × Json) := [("version", .int version),
    ("root", optionalJson s.page.root),
    ("elements",
      .object (savedMembers (fun e => e.saved.arranged) (byKey s.page.elements.entries))),
    ("selection", .array (s.selection.map .str)),
    ("viewport", arranged (.object (savedMembers Value.saved s.viewport.entries)))] with hmembers
  have hsaved : s.saved.arranged = .object (byKey members) := arranged_snapshot_saved s
  have hn : (members.map Prod.fst).Nodup := by
    rw [hmembers]
    simp
  have hextra : extraShape (byKey members)
      ["version", "root", "elements", "selection", "viewport"] = .ok () :=
    extraShape_byKey members
  have hversion : versionShape (.int version) = .ok () := rfl
  rw [hsaved, documentShape, field_byKey hn, field_byKey hn, field_byKey hn, field_byKey hn,
    field_byKey hn, hextra]
  simp only [hmembers, field, lookup_cons_pair, hversion, helements, hviewport,
    stringsShape_map_str, optionalShape_optionalJson, String.reduceEq, if_true, if_false]
  rfl

end Archive

/-! ## The elements that are read -/

/-- An element as it is read back: its props and style attributes in the order of their keys. -/
def Element.reordered (e : Element) : Element :=
  { e with
    props := .ofList (byKey e.props.entries)
    style := .ofList (byKey e.style.entries) }

/-- A page as it is read back: its elements in the order of their ids. -/
def Page.reordered (page : Page) : Page where
  elements := .ofList ((byKey page.elements.entries).map fun p => (p.1, p.2.reordered))
  root := page.root

theorem OrderedMap.ofList_byKey_same {α : Type} (m : OrderedMap α) :
    (OrderedMap.ofList (byKey m.entries)).Same m := by
  intro key
  rw [get?_ofList_of_nodup (nodup_keys_byKey m.nodup_keys), lookup_byKey m.nodup_keys]
  rfl

theorem Element.reordered_sameContent (e : Element) : e.reordered.SameContent e :=
  ⟨rfl, rfl, e.props.ofList_byKey_same, e.style.ofList_byKey_same, rfl, rfl⟩

theorem Page.get?_reordered (page : Page) (id : String) :
    page.reordered.get? id = (page.get? id).map Element.reordered := by
  have hn : (((byKey page.elements.entries).map fun p => (p.1, p.2.reordered)).map
      Prod.fst).Nodup := by
    rw [List.map_map]
    exact nodup_keys_byKey page.elements.nodup_keys
  rw [get?, reordered, OrderedMap.get?_ofList_of_nodup hn,
    lookup_map_snd (fun _ => Element.reordered), lookup_byKey page.elements.nodup_keys]
  rfl

namespace Archive

/-- A prop that passes its check is read as it was saved; an object stands for a bound expression.
-/
theorem propOfJson_saved {id name : String} {value : Value}
    (hcheck : Props.checkOne name value = .ok ()) (hset : value ≠ .null) :
    propOfJson id name value.saved = .ok value := by
  rcases value_cases hcheck hset with
    ⟨_, rfl⟩ | ⟨_, rfl⟩ | ⟨_, rfl⟩ | ⟨_, rfl⟩ | ⟨s, rfl⟩
  · rfl
  · rfl
  · rfl
  · rfl
  · rw [Value.saved, propOfJson, if_pos rfl]

theorem propsOfJson_saved {id : String} {entries : List (String × Value)}
    (h : ∀ p ∈ entries, propOfJson id p.1 p.2.saved = .ok p.2) :
    propsOfJson id (savedMembers Value.saved entries) = .ok entries := by
  induction entries with
  | nil => rfl
  | cons p rest ih =>
    obtain ⟨name, value⟩ := p
    show propsOfJson id ((name, value.saved) :: savedMembers Value.saved rest) = _
    rw [propsOfJson, h _ List.mem_cons_self, ih fun p hp => h p (List.mem_cons_of_mem _ hp)]
    rfl

/-- The checks of props do not depend on their order. -/
theorem check_congr {props others : OrderedMap Value} (h : props.Same others)
    (hcheck : Props.check others = .ok ()) : Props.check props = .ok () := by
  apply (Props.checkEntries_eq_ok_iff _).2
  intro p hp
  exact checkOne_of_check hcheck p (h.perm.mem_iff.1 hp)

/-- The checks that an element passed before it was saved are passed again. -/
theorem elementOfShape_saved {e : Element} (h : Saveable e) :
    elementOfShape e.id e.savedShape = .ok e.reordered := by
  have hprops : propsOfJson e.id (savedMembers Value.saved (byKey e.props.entries)) =
      .ok (byKey e.props.entries) := by
    apply propsOfJson_saved
    intro p hp
    have hm := mem_byKey.1 hp
    exact propOfJson_saved (checkOne_of_check h.props_checked p hm) (h.props_set p hm)
  have hstyle : ((byKey e.style.entries).map fun p => (p.1, p.2.savedText)).map
      (fun p => (p.1, Value.str p.2)) = byKey e.style.entries := by
    rw [List.map_map]
    apply (List.map_congr_left _).trans (List.map_id _)
    rintro ⟨category, value⟩ hm
    obtain ⟨-, s, rfl⟩ := h.style_text _ (mem_byKey.1 hm)
    rfl
  have hcheck := check_congr e.props.ofList_byKey_same h.props_checked
  rw [elementOfShape, h.id_valid]
  simp only [Element.savedShape, hprops, hstyle, hcheck, Bool.not_true, Bool.false_eq_true,
    if_false, Results.pure_eq, Results.ok_bind]
  rfl

/-- And so for all of them, in the order in which they were saved. -/
theorem elementsOfShape_saved {entries : List (String × Element)}
    (h : ∀ p ∈ entries, elementOfShape p.1 p.2.savedShape = .ok p.2.reordered) :
    elementsOfShape (entries.map fun p => (p.1, p.2.savedShape)) =
      .ok (entries.map fun p => (p.1, p.2.reordered)) := by
  induction entries with
  | nil => rfl
  | cons p rest ih =>
    obtain ⟨id, e⟩ := p
    rw [List.map_cons, elementsOfShape, h _ List.mem_cons_self,
      ih fun p hp => h p (List.mem_cons_of_mem _ hp)]
    rfl

/-! ## The page that is read -/

/-- Reordering keeps every link. -/
theorem problems_reordered {page : Page} (h : page.problems catalog false = []) :
    page.reordered.problems catalog false = [] := by
  rw [Page.problems_eq_nil_iff, Page.isTree_iff_linked] at h ⊢
  obtain ⟨hlinked, hadmits⟩ := h
  constructor
  · refine hlinked.congr (show page.reordered.root = page.root from rfl) ?_ ?_
    · intro x e he
      rw [Page.get?_reordered, he]
      exact ⟨e.reordered, rfl, rfl, rfl⟩
    · intro y f hf
      rw [Page.get?_reordered, Option.map_eq_some_iff] at hf
      obtain ⟨e, he, -⟩ := hf
      exact ⟨e, he⟩
  · intro x f hf
    rw [Page.get?_reordered, Option.map_eq_some_iff] at hf
    obtain ⟨e, he, rfl⟩ := hf
    have hadmitted := hadmits he
    refine ⟨hadmitted.holds_children, hadmitted.kind_known, ?_⟩
    intro category hm
    apply hadmitted.style_known
    rw [OrderedMap.mem_keys_iff] at hm ⊢
    obtain ⟨value, hvalue⟩ := hm
    exact ⟨value, (e.style.ofList_byKey_same category).symm.trans hvalue⟩

/-- What the reader makes of what the writer saved. -/
theorem ofJson_saved (h : DocumentValid catalog s) :
    ∃ s', ofJson s.saved.arranged catalog = .ok s' ∧ s'.SameContent s := by
  obtain ⟨name, zoom, hshape, hviewport⟩ := documentShape_saved h
  have helements : elementsOfShape ((byKey s.page.elements.entries).map
        fun p => (p.1, p.2.savedShape)) =
      .ok ((byKey s.page.elements.entries).map fun p => (p.1, p.2.reordered)) := by
    apply elementsOfShape_saved
    intro p hp
    have hm := mem_byKey.1 hp
    rw [← h.keyed ((s.page.elements.mem_entries_iff _ _).1 hm)]
    exact elementOfShape_saved (h.saveable p hm)
  -- A new source of ids can be moved past the ids of the document.
  have hreads : ∀ id ∈ s.page.reordered.elements.keys, ({} : IdSource).Reads id := by
    intro id hid
    apply IdSource.reads_of_isValidId
    rw [OrderedMap.mem_keys_iff] at hid
    obtain ⟨f, hf⟩ := hid
    rw [← Page.get?, Page.get?_reordered, Option.map_eq_some_iff] at hf
    obtain ⟨e, he, -⟩ := hf
    rw [← h.keyed he]
    exact (h.saveable _ ((s.page.elements.mem_entries_iff _ _).2 he)).id_valid
  obtain ⟨after, hdraft⟩ := IdSource.exists_ofPage catalog hreads
  have hcontains (id : String) : s.page.reordered.contains id = s.page.contains id := by
    show (s.page.reordered.get? id).isSome = (s.page.get? id).isSome
    rw [Page.get?_reordered, Option.isSome_map]
  have hselection : s.selection.filter s.page.reordered.contains = s.selection := by
    rw [List.filter_eq_self]
    exact fun id hid => (hcontains id).trans (h.selected id hid)
  have hread : ofJson s.saved.arranged catalog = .ok ⟨s.page.reordered, s.selection,
      .ofList [("name", .str name), ("zoom", .int zoom)]⟩ := by
    simp only [ofJson, hshape, helements, Results.ok_bind]
    show (Draft.ofPage catalog {} s.page.reordered >>= _) = _
    simp only [hdraft, Results.ok_bind, problems_reordered h.consistent, Results.pure_eq,
      Draft.snapshot, Snapshot.ofPage, hselection]
    rfl
  refine ⟨_, hread, rfl, ?_, rfl, hviewport.symm⟩
  intro id
  show Option.Rel Element.SameContent (s.page.reordered.get? id) (s.page.get? id)
  rw [Page.get?_reordered]
  cases s.page.get? id with
  | none => exact .none
  | some e => exact .some e.reordered_sameContent

/-- Entries of a map have different keys, and so do the members they are saved as. -/
theorem distinct_savedMembers {α : Type} {json : α → Json} {entries : List (String × α)}
    (hn : (entries.map Prod.fst).Nodup) (h : ∀ x, (json x).Distinct) :
    (Json.object (savedMembers json entries)).Distinct := by
  refine ⟨by rwa [keys_savedMembers], distinctMembers_iff.2 ?_⟩
  intro m hm
  obtain ⟨p, -, rfl⟩ := List.mem_map.1 hm
  exact h p.2

theorem distinct_strs (ss : List String) : (Json.array (ss.map .str)).Distinct := by
  apply distinctItems_iff.2
  intro j hj
  obtain ⟨s, -, rfl⟩ := List.mem_map.1 hj
  trivial

theorem distinct_optionalJson (s : Option String) : (optionalJson s).Distinct := by
  cases s <;> trivial

/-- No object in the text of a snapshot gives a key twice, which is what the reader asks for. -/
theorem distinct_saved (s : Snapshot) : s.saved.Distinct := by
  have hvalue (v : Value) : v.saved.Distinct := by
    cases v with
    | binding e => cases e <;> simp [Value.saved, Distinct, DistinctMembers]
    | _ => trivial
  have helement (e : Element) : e.saved.Distinct :=
    ⟨by simp, trivial, distinct_savedMembers e.props.nodup_keys hvalue,
      distinct_savedMembers e.style.nodup_keys hvalue, distinct_strs _, distinct_optionalJson _,
      trivial⟩
  exact ⟨by simp, trivial, distinct_optionalJson _,
    distinct_savedMembers s.page.elements.nodup_keys helement, distinct_strs _,
    distinct_savedMembers s.viewport.nodup_keys hvalue, trivial⟩

/-- What is saved can be loaded, and is what was saved. -/
theorem read_write (h : DocumentValid catalog s) (hw : Writable s) :
    ∃ text s', write s = .ok text ∧ read text catalog = .ok s' ∧ s'.SameContent s := by
  obtain ⟨s', hread, hsame⟩ := ofJson_saved h
  refine ⟨_, s', write_eq h hw, ?_, hsame⟩
  rw [read, read_pretty (distinct_saved s) ((fits_saved_iff h).2 hw)]
  exact hread

/-- What a document says does not depend on the catalog, which only decides whether it is let in.
-/
theorem ofJson_unique {json : Json} {other : Catalog} {s' t' : Snapshot}
    (hs : ofJson json catalog = .ok s') (ht : ofJson json other = .ok t') : s' = t' := by
  obtain ⟨shape, elements, hshape, he, -, rfl⟩ := snapshot_of_ofJson hs
  obtain ⟨shape', elements', hshape', he', -, rfl⟩ := snapshot_of_ofJson ht
  cases hshape.symm.trans hshape'
  cases he.symm.trans he'
  rfl

/-- Saving and loading: every valid snapshot whose integers can be written is loaded with the
content it was saved with, and two of them are saved as one text exactly when they have the same
content, in which case they have the same digest.  A valid snapshot with an integer of too many
digits has no text. -/
theorem save_load (catalog other : Catalog) :
    (∀ s, DocumentValid catalog s → Writable s →
      ∃ text s', write s = .ok text ∧ read text catalog = .ok s' ∧ s'.SameContent s) ∧
    (∀ s t, DocumentValid catalog s → DocumentValid other t → Writable s → Writable t →
      (write s = write t ↔ s.SameContent t) ∧
        (s.SameContent t → ∃ name, digest s = .ok name ∧ digest t = .ok name)) ∧
    ∀ s, DocumentValid catalog s → ¬ Writable s →
      write s = .error (.noText .longInteger) ∧ digest s = .error (.noText .longInteger) := by
  refine ⟨fun _ => read_write, fun s t hs ht hws hwt => ⟨⟨?_, ?_⟩, ?_⟩,
    fun _ => write_eq_error⟩
  · intro heq
    -- One text is read as one JSON, and that as one snapshot.
    rw [write_eq hs hws, write_eq ht hwt, Except.ok.injEq] at heq
    have hjson := (read_pretty (distinct_saved s) ((fits_saved_iff hs).2 hws)).symm.trans
      ((congrArg Json.read heq).trans
        (read_pretty (distinct_saved t) ((fits_saved_iff ht).2 hwt)))
    rw [Except.ok.injEq] at hjson
    obtain ⟨s', hread, hsame⟩ := ofJson_saved hs
    obtain ⟨t', hread', hsame'⟩ := ofJson_saved ht
    rw [hjson] at hread
    cases ofJson_unique hread hread'
    exact hsame.symm.trans hsame'
  · intro hsame
    rw [write_eq hs hws, write_eq ht hwt, pretty, pretty,
      render_congr prettyStyle 0 (arranged_snapshot hsame)]
  · intro hsame
    have hcompact : s.saved.compact = t.saved.compact :=
      render_congr compactStyle 0 (arranged_snapshot hsame)
    simp only [digest, writableJson_eq hs hws, writableJson_eq ht hwt, Results.map_ok, hcompact]
    exact ⟨_, rfl, rfl⟩

/-- A text with two props in a padded container. -/
def sampleElements : List (String × Element) := [
  ("el_1", ⟨"el_1", "container", .empty, ⟨[("padding", .str "medium")], by simp⟩, ["el_2"], none⟩),
  ("el_2", ⟨"el_2", "text",
    ⟨[("title", .str "a \"b\"\n"), ("size", .float (.ofDecimal false 15 (-1)))], by simp⟩,
    .empty, [], some "el_1"⟩)]

def sample : Snapshot where
  page := { elements := ⟨sampleElements, by simp [sampleElements]⟩, root := some "el_1" }
  selection := ["el_2"]

theorem sample_valid : DocumentValid .builtIn sample where
  keyed := Page.keyed_of_entries (by decide +kernel)
  saveable := by
    show ∀ p ∈ sampleElements, Saveable p.2
    refine List.forall_mem_cons.2 ⟨?_, List.forall_mem_singleton.2 ?_⟩
    · refine ⟨by decide, by decide, by decide +kernel, nofun, ?_⟩
      exact List.forall_mem_singleton.2 ⟨by decide, "medium", rfl⟩
    · exact ⟨by decide, by decide, by decide +kernel, by decide +kernel, nofun⟩
  consistent := by decide +kernel
  selected := by decide +kernel
  viewport := ⟨"desktop", 100, by decide, by decide, by decide, .refl _⟩

/-- The same with its viewport settings the other way round. -/
def turned : Snapshot :=
  { sample with viewport := .ofList [("zoom", .int 100), ("name", .str "desktop")] }

theorem sample_turned : sample.SameContent turned :=
  Snapshot.same_iff.1 (by decide +kernel)

theorem turned_valid : DocumentValid .builtIn turned :=
  ⟨sample_valid.keyed, sample_valid.saveable, sample_valid.consistent, sample_valid.selected,
    "desktop", 100, by decide, by decide, by decide, sample_turned.viewport.symm⟩

/-- All integers of the sample are few digits long: there is none. -/
theorem sample_writable : Writable sample := by
  show ∀ p ∈ sampleElements, ∀ q ∈ p.2.props.entries, q.2.textFault? = none
  decide +kernel

theorem save_load_sample :
    (∃ text s', write sample = .ok text ∧ read text .builtIn = .ok s' ∧ s'.SameContent sample) ∧
      write sample = write turned ∧
        ∃ name, digest sample = .ok name ∧ digest turned = .ok name := by
  obtain ⟨hload, hcanonical, -⟩ := save_load .builtIn .builtIn
  obtain ⟨htext, hdigest⟩ :=
    hcanonical sample turned sample_valid turned_valid sample_writable sample_writable
  exact ⟨hload sample sample_valid sample_writable, htext.2 sample_turned, hdigest sample_turned⟩

end Archive

end PageBuilder
