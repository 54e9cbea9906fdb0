import PageBuilder.Proofs.Markup.Attributes
import PageBuilder.Proofs.Markup.Literals
import PageBuilder.Proofs.Markup.LookUp
import PageBuilder.Proofs.Style.Resolve
import PageBuilder.Proofs.Text.Tidy

/-!
# Lines of markup and where they stand

How deep an agenda stands shows in the margin of its lines and in nothing else (`lines_deeper`).  On
a tree all lines are written once the kinds are known, whatever ids the elements have by themselves.
And a line of markup is one line of text that ends in a bracket, unless a tag, the name of a prop or
a bound expression brings a line feed in; a text cannot, however it is quoted.
-/

namespace PageBuilder.Markup

open Results Text

variable {catalog : Catalog} {page : Page} {known : OrderedMap Component} {unit : String}
  {component : Component} {e : Element} {agenda : List Task} {written : List String}

/-! ## Depth -/

theorem pad_add (unit : String) (k depth : Nat) :
    pad unit (k + depth) = pad unit k ++ pad unit depth := by
  induction k with
  | zero => simp [pad]
  | succ k ih => rw [Nat.succ_add, pad, ih, pad, String.append_assoc]

/-- The same task, so many levels further in. -/
def Task.deeper (k : Nat) : Task → Task
  | .open id depth n => .open id (k + depth) n
  | .close tag depth => .close tag (k + depth)

/-- What opening a stored element of a known kind comes to. -/
theorem lines_open {id : String} (he : page.get? id = some e)
    (hkind : known.get? e.kind = some component) (depth n : Nat) (rest : List Task) :
    lines page known unit (.open id depth (n + 1) :: rest) =
      unlessFault (tagFault? component e)
        (if e.children.isEmpty then
          ((pad unit depth ++ "<" ++ tagText component e ++ " />") :: ·) <$>
            lines page known unit rest
        else
          ((pad unit depth ++ "<" ++ tagText component e ++ ">") :: ·) <$>
            lines page known unit ((e.children.map fun c => .open c (depth + 1) n) ++
              .close component.tag depth :: rest)) := by
  rw [lines]
  split
  case h_1 hnone => cases hnone.symm.trans he
  case h_2 f hf =>
    cases he.symm.trans hf
    simp only [hkind, opening_eq]
    cases tagFault? component e <;> rfl

theorem map_deeper (k : Nat) (children : List String) (tag : String) (depth n : Nat)
    (rest : List Task) :
    ((children.map fun c => Task.open c (depth + 1) n) ++ .close tag depth :: rest).map
        (Task.deeper k) =
      (children.map fun c => .open c (k + depth + 1) n) ++
        .close tag (k + depth) :: rest.map (Task.deeper k) := by
  rw [List.map_append, List.map_map, List.map_cons]
  rfl

/-- What is written further in is written with a wider margin. -/
theorem lines_deeper (k : Nat) (agenda : List Task) :
    lines page known unit (agenda.map (Task.deeper k)) =
      (List.map (pad unit k ++ ·)) <$> lines page known unit agenda := by
  fun_induction lines page known unit agenda
  case case1 => rw [List.map_nil, lines, map_ok, List.map_nil]
  case case2 tag depth rest ih =>
    rw [List.map_cons, Task.deeper, lines, ih]
    cases lines page known unit rest <;> simp [pad_add, String.append_assoc]
  case case3 => rw [List.map_cons, Task.deeper, lines, map_error]
  -- What cannot be opened fails in the same way at every depth.
  case case4 id depth n rest hnone =>
    rw [List.map_cons, Task.deeper, lines, map_error]
    split
    case h_1 => rfl
    case h_2 f hf => cases hnone.symm.trans hf
  case case5 id depth n rest e he hkind =>
    rw [List.map_cons, Task.deeper, lines, map_error]
    split
    case h_1 hnone => cases hnone.symm.trans he
    case h_2 f hf =>
      cases he.symm.trans hf
      rw [hkind]
  case case6 id depth n rest e he component hkind fault hfault =>
    rw [List.map_cons, Task.deeper, lines_open he hkind, opening_eq_error_iff.1 hfault]
    rfl
  case case7 id depth n rest e he component hkind tag htag hempty ih =>
    obtain ⟨hnone, rfl⟩ := opening_eq_ok_iff.1 htag
    rw [List.map_cons, Task.deeper, lines_open he hkind, hnone, unlessFault_none, if_pos hempty, ih]
    cases lines page known unit rest <;> simp [pad_add, String.append_assoc]
  case case8 id depth n rest e he component hkind tag htag hempty ih =>
    obtain ⟨hnone, rfl⟩ := opening_eq_ok_iff.1 htag
    rw [List.map_cons, Task.deeper, lines_open he hkind, hnone, unlessFault_none, if_neg hempty,
      ← map_deeper, ih]
    generalize lines page known unit _ = below
    cases below <;> simp [pad_add, String.append_assoc]

/-! ## Trees are written -/

/-- The elements that an agenda is to open, each with the generations that may hang there. -/
def Task.pending : Task → Option (String × Nat)
  | .open id _ n => some (id, n)
  | .close _ _ => none

theorem filterMap_pending (children : List String) (tag : String) (depth n : Nat)
    (rest : List Task) :
    ((children.map fun c => Task.open c (depth + 1) n) ++ .close tag depth :: rest).filterMap
        Task.pending = children.map (·, n) ++ rest.filterMap Task.pending := by
  rw [List.filterMap_append, List.filterMap_map,
    List.filterMap_cons_none (show (Task.close tag depth).pending = none from rfl),
    ← List.filterMap_eq_map]
  rfl

/-- An agenda whose elements all have generations to spare is written to its end, if all elements
can be written. -/
theorem exists_lines (hl : page.Linked) (htexts : page.HasTexts)
    (hknown : ∀ {id e}, page.get? id = some e → ∃ component, known.get? e.kind = some component)
    (hagenda : page.Spared (agenda.filterMap Task.pending)) :
    ∃ written, lines page known unit agenda = .ok written := by
  fun_induction lines page known unit agenda
  case case1 => exact ⟨_, rfl⟩
  case case2 tag depth rest ih =>
    obtain ⟨below, hbelow⟩ := ih hagenda
    exact ⟨_, by rw [hbelow, map_ok]⟩
  -- No generations are left, though one is owed to every element of the agenda.
  case case3 id depth rest =>
    obtain ⟨d, hd, hlt⟩ := hagenda (id, 0) List.mem_cons_self
    have := hl.atDepth_lt_size hd
    simp only at hlt
    omega
  case case4 id depth n rest hnone =>
    obtain ⟨d, hd, -⟩ := hagenda (id, n + 1) List.mem_cons_self
    obtain ⟨e, he⟩ := hl.stored_of_atDepth hd
    cases hnone.symm.trans he
  case case5 id depth n rest e he hnone =>
    obtain ⟨component, hkind⟩ := hknown he
    cases hnone.symm.trans hkind
  case case6 id depth n rest e he component hkind fault hfault =>
    have hnone : tagFault? component e = none := tagFault?_eq_none_iff.2 (htexts _ _ he)
    cases hnone.symm.trans (opening_eq_error_iff.1 hfault)
  case case7 id depth n rest e he component hkind tag htag hempty ih =>
    obtain ⟨below, hbelow⟩ := ih (List.forall_mem_cons.1 hagenda).2
    exact ⟨_, by rw [hbelow, map_ok]⟩
  case case8 id depth n rest e he component hkind tag htag hempty ih =>
    obtain ⟨below, hbelow⟩ := ih (by
      rw [filterMap_pending]
      exact hl.spared_next hagenda he)
    exact ⟨_, by rw [hbelow, map_ok]⟩

/-- The lines at a depth are those from the first column on with a margin, or fail as those do. -/
theorem linesFrom_deeper (page : Page) (known : OrderedMap Component) (unit root : String)
    (k : Nat) :
    linesFrom page known unit k root =
      (List.map (pad unit k ++ ·)) <$> linesFrom page known unit 0 root :=
  lines_deeper k [.open root 0 page.generations]

/-- On a tree of known kinds all components are found, and if all elements can be written there are
lines. -/
theorem exists_markup (hl : page.Linked)
    (hkinds : ∀ {id e}, page.get? id = some e → catalog.contains e.kind = true) :
    ∃ known, components catalog page = .ok known ∧
      (∀ {id e}, page.get? id = some e →
        known.get? e.kind = some (catalog.componentOf e.kind)) ∧
      ∀ {root}, page.root = some root → page.HasTexts → ∀ unit,
        ∃ written, linesFrom page known unit 0 root = .ok written := by
  obtain ⟨known, hknown⟩ := exists_components hl hkinds
  have hget : ∀ {id e}, page.get? id = some e →
      known.get? e.kind = some (catalog.componentOf e.kind) :=
    fun he => get?_of_shown hknown (hl.shown he)
  exact ⟨known, hknown, hget, fun {root} hroot htexts unit =>
    exists_lines hl htexts (fun he => ⟨_, hget he⟩) (Page.spared_root hroot)⟩

/-! ## Lines in one piece -/

/-- The tag of an element and the names and expressions of its props hold no line feed. -/
structure Unbroken (component : Component) (e : Element) : Prop where
  tag : '\n' ∉ component.tag.toList
  name : ∀ name ∈ e.props.keys, '\n' ∉ name.toList
  expression : ∀ {name expression}, e.props.get? name = some (.binding expression) →
    '\n' ∉ expression.text.toList

theorem not_mem_attributeText {name : String} {value : Value} (hname : '\n' ∉ name.toList)
    (hexpression : ∀ expression, value = .binding expression → '\n' ∉ expression.text.toList) :
    '\n' ∉ (attributeText name value).toList := by
  by_cases hbinding : ∃ expression, value = .binding expression
  · obtain ⟨expression, rfl⟩ := hbinding
    simp [attributeText, braced, hname, hexpression expression rfl]
  · obtain ⟨rest, heq, hfree⟩ := exists_controlFree (not_exists.1 hbinding) name
    rw [heq, String.toList_append, List.mem_append, not_or]
    exact ⟨hname, hfree.not_mem_newline⟩

theorem not_mem_classText (style : OrderedMap Value) : '\n' ∉ (Style.classText style).toList := by
  intro hm
  obtain hspace | ⟨token, htoken, hm⟩ := mem_join hm
  · exact absurd hspace (by decide)
  · exact absurd ((Style.written_of_mem_tokens htoken).2 _ hm) (by decide)

theorem not_mem_tagText (h : Unbroken component e) : '\n' ∉ (tagText component e).toList := by
  intro hm
  obtain hspace | ⟨part, hpart, hm⟩ := mem_join hm
  · exact absurd hspace (by decide)
  rw [attributeTexts_eq, List.mem_cons, List.mem_append, List.mem_map] at hpart
  rcases hpart with rfl | ⟨name, hname, rfl⟩ | hpart
  · exact h.tag hm
  · have hkey := (attributeOrder_perm e.props component.props).mem_iff.1 hname
    obtain ⟨value, hvalue⟩ := (e.props.mem_keys_iff name).1 hkey
    rw [hvalue, Option.getD_some] at hm
    exact not_mem_attributeText (h.name name hkey) (fun _ heq => h.expression (heq ▸ hvalue)) hm
  · split at hpart
    · cases hpart
    · obtain rfl := List.mem_singleton.1 hpart
      simp [classAttribute, not_mem_classText] at hm

/-- A line of text that ends in a bracket. -/
def Bracketed (line : String) : Prop :=
  ∃ front : String, line = front ++ ">" ∧ '\n' ∉ front.toList

theorem not_mem_pad (h : '\n' ∉ unit.toList) (depth : Nat) : '\n' ∉ (pad unit depth).toList := by
  induction depth with
  | zero => simp [pad]
  | succ depth ih => simp [pad, h, ih]

/-- Every line is one line of text, if every opening and closing tag is. -/
theorem bracketed_lines (hunit : '\n' ∉ unit.toList)
    (hpage : ∀ {id e component}, page.get? id = some e → known.get? e.kind = some component →
      Unbroken component e)
    (hagenda : ∀ {tag depth}, .close tag depth ∈ agenda → '\n' ∉ tag.toList)
    (h : lines page known unit agenda = .ok written) : ∀ line ∈ written, Bracketed line := by
  have hpad := not_mem_pad hunit
  -- By induction on the agenda; opening an element puts its own closing tag on it.
  fun_induction lines page known unit agenda generalizing written
  case case1 =>
    cases h
    exact List.forall_mem_nil _
  case case2 tag depth rest ih =>
    obtain ⟨below, hbelow, rfl⟩ := exists_of_map h
    have htag := hagenda List.mem_cons_self
    refine List.forall_mem_cons.2 ⟨⟨pad unit depth ++ "</" ++ tag, rfl, ?_⟩,
      ih (fun hm => hagenda (List.mem_cons_of_mem _ hm)) hbelow⟩
    simp [hpad, htag]
  case case3 => cases h
  case case4 => cases h
  case case5 => cases h
  case case6 => cases h
  case case7 id depth n rest e he component hkind tag htag hempty ih =>
    obtain ⟨-, rfl⟩ := opening_eq_ok_iff.1 htag
    obtain ⟨below, hbelow, rfl⟩ := exists_of_map h
    have htag := not_mem_tagText (hpage he hkind)
    refine List.forall_mem_cons.2 ⟨⟨pad unit depth ++ "<" ++ tagText component e ++ " /", ?_, ?_⟩,
      ih (fun hm => hagenda (List.mem_cons_of_mem _ hm)) hbelow⟩
    · simp [String.append_assoc]
    · simp [hpad, htag]
  case case8 id depth n rest e he component hkind tag htag hempty ih =>
    obtain ⟨-, rfl⟩ := opening_eq_ok_iff.1 htag
    obtain ⟨below, hbelow, rfl⟩ := exists_of_map h
    have htag := not_mem_tagText (hpage he hkind)
    have hclose : ∀ {tag d}, .close tag d ∈ (e.children.map fun c => .open c (depth + 1) n) ++
        .close component.tag depth :: rest → '\n' ∉ tag.toList := by
      intro tag d hm
      rcases List.mem_append.1 hm with hm | hm
      · obtain ⟨child, -, heq⟩ := List.mem_map.1 hm
        cases heq
      · rcases List.mem_cons.1 hm with heq | hm
        · -- The tag to be closed is that of the element that has been opened.
          cases heq
          exact (hpage he hkind).tag
        · exact hagenda (List.mem_cons_of_mem _ hm)
    refine List.forall_mem_cons.2 ⟨⟨pad unit depth ++ "<" ++ tagText component e, rfl, ?_⟩,
      ih hclose hbelow⟩
    simp [hpad, htag]

end PageBuilder.Markup
