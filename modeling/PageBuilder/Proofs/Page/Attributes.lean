import PageBuilder.Page.Attributes

/-!
# What the checks of attributes ask for

The checks of props and style attributes are made entry by entry.  This is what they come to for a
map as a whole: which names and values pass, and what an overlay holds.  A line feed at the end of
a name passes too, and it is the only character that does without being one of a name.
-/

namespace PageBuilder

/-! ## Values of props -/

/-- A value that an edit can give to a prop. -/
inductive Value.Assignable : Value → Prop
  | bool (b : Bool) : Assignable (.bool b)
  | int (n : Int) : Assignable (.int n)
  | float {x : Double} (h : x.isFinite = true) : Assignable (.float x)
  | str (s : String) : Assignable (.str s)
  | binding {s : String} (h : Text.isBlankText s = false) : Assignable (.binding (.str s))

namespace Props

variable {name : String} {value : Value}

/-- Null is let through as well: in an update it stands for removal. -/
theorem checkValue_eq_ok_iff :
    checkValue name value = .ok () ↔ value = .null ∨ value.Assignable := by
  constructor
  · intro h
    cases value with
    | null => exact Or.inl rfl
    | bool b => exact Or.inr (.bool b)
    | int n => exact Or.inr (.int n)
    | str s => exact Or.inr (.str s)
    | float x =>
      rw [checkValue] at h
      split at h
      · rename_i hx
        exact Or.inr (.float hx)
      · cases h
    | binding expression =>
      cases expression with
      | str s =>
        rw [checkValue] at h
        split at h
        · cases h
        · rename_i hs
          exact Or.inr (.binding (by simpa using hs))
      | _ => cases h
    | list | dict | tooDeep => cases h
  · rintro (rfl | h)
    · rfl
    · cases h with
      | bool | int | str => rfl
      | float hx => rw [checkValue, if_pos hx]
      | binding hs =>
        rw [checkValue, hs]
        rfl

/-- A name that an edit can give to a prop. -/
def Nameable (name : String) : Prop :=
  isName name = true ∧ name ∉ reserved

/-- A prop is checked by its name and its value. -/
theorem checkOne_eq_ok_iff :
    checkOne name value = .ok () ↔ Nameable name ∧ (value = .null ∨ value.Assignable) := by
  rw [Nameable, checkOne, ← @checkValue_eq_ok_iff name value]
  cases isName name with
  | false => simp
  | true => by_cases h : name ∈ reserved <;> simp [h]

/-- And props are checked one by one. -/
theorem check_eq_ok_iff {props : OrderedMap Value} :
    check props = .ok () ↔
      ∀ p ∈ props.entries, Nameable p.1 ∧ (p.2 = .null ∨ p.2.Assignable) := by
  rw [check, checkEntries_eq_ok_iff]
  simp only [checkOne_eq_ok_iff]

/-! ## Refused props -/

/-- Checks fail at an entry. -/
theorem exists_of_check_error {props : OrderedMap Value} {fault : PropFault}
    (h : check props = .error fault) : ∃ p ∈ props.entries, checkOne p.1 p.2 = .error fault := by
  rw [check] at h
  generalize props.entries = entries at h ⊢
  induction entries with
  | nil => cases h
  | cons p rest ih =>
    obtain ⟨name, value⟩ := p
    rw [checkEntries] at h
    split at h
    · rename_i heq
      cases h
      exact ⟨_, List.mem_cons_self, heq⟩
    · obtain ⟨q, hm, hq⟩ := ih h
      exact ⟨q, List.mem_cons_of_mem _ hm, hq⟩

/-- A fault that shows a value shows the one that is refused. -/
theorem textFault?_of_checkOne {fault : PropFault} (h : checkOne name value = .error fault)
    {wanting : TextFault} (hfault : fault.textFault? = some wanting) :
    value.textFault? = some wanting := by
  unfold checkOne at h
  split at h
  · cases h
    cases hfault
  · split at h
    · cases h
      cases hfault
    · unfold checkValue at h
      split at h <;> grind [PropFault.textFault?]

/-! ## Names of props -/

theorem toNat_of_isAlpha {c : Char} (h : c.isAlpha = true) : 0x41 ≤ c.toNat ∧ c.toNat ≤ 0x7a := by
  change (decide (0x41 ≤ c.val ∧ c.val ≤ 0x5a) || (0x61 ≤ c.val && c.val ≤ 0x7a)) = true at h
  simp only [Bool.or_eq_true, Bool.and_eq_true, decide_eq_true_eq] at h
  rcases h with ⟨hleast, hgreatest⟩ | ⟨hleast, hgreatest⟩
  · exact ⟨hleast, Nat.le_trans hgreatest (by decide)⟩
  · exact ⟨Nat.le_trans (by decide) hleast, hgreatest⟩

/-- A letter or an underscore, followed by letters, digits, underscores, colons and hyphens. -/
def WellNamed (name : String) : Prop :=
  ∃ c rest, name.toList = c :: rest ∧ isNameStart c = true ∧ ∀ d ∈ rest, isNameChar d = true

/-- All characters of a well-formed name can stand in one. -/
theorem WellNamed.isNameChar (h : WellNamed name) {c : Char} (hc : c ∈ name.toList) :
    Props.isNameChar c = true := by
  obtain ⟨first, rest, hname, hfirst, hrest⟩ := h
  rw [hname] at hc
  rcases List.mem_cons.1 hc with rfl | hc
  · simp only [isNameStart, Bool.or_eq_true, decide_eq_true_eq] at hfirst
    rcases hfirst with hletter | hline <;> simp [Props.isNameChar, *]
  · exact hrest c hc

/-- None of them is a blank. -/
theorem isBlank_of_isNameChar {c : Char} (h : isNameChar c = true) : Text.isBlank c = false := by
  have hrange : 0x2d ≤ c.toNat ∧ c.toNat ≤ 0x7a := by
    simp only [Props.isNameChar, Bool.or_eq_true, decide_eq_true_eq] at h
    rcases h with (((h | h) | rfl) | rfl) | rfl
    · have := toNat_of_isAlpha h
      omega
    · simp only [Char.isDigit, Bool.and_eq_true, decide_eq_true_eq] at h
      exact ⟨Nat.le_trans (by decide) h.1, Nat.le_trans h.2 (by decide)⟩
    all_goals decide
  simp only [Text.isBlank, Text.isSpace, Bool.or_eq_false_iff, Bool.and_eq_false_iff,
    beq_eq_false_iff_ne, decide_eq_false_iff_not]
  omega

/-- At most one line feed is taken away. -/
theorem withoutFinalNewline_cases (cs : List Char) :
    cs = Element.withoutFinalNewline cs ∨ cs = Element.withoutFinalNewline cs ++ ['\n'] := by
  induction cs with
  | nil => exact Or.inl rfl
  | cons c rest ih =>
    cases rest with
    | nil =>
      rw [Element.withoutFinalNewline]
      split
      · rename_i hc
        exact Or.inr (by rw [hc]; rfl)
      · exact Or.inl rfl
    | cons d rest =>
      rw [Element.withoutFinalNewline]
      · exact ih.imp (congrArg (c :: ·)) (congrArg (c :: ·))
      · simp

theorem withoutFinalNewline_append (cs : List Char) :
    Element.withoutFinalNewline (cs ++ ['\n']) = cs := by
  induction cs with
  | nil => rfl
  | cons c rest ih =>
    rw [List.cons_append, Element.withoutFinalNewline, ih]
    simp

/-- A name is let pass with a line feed behind it. -/
theorem isName_iff :
    isName name = true ↔ ∃ base, WellNamed base ∧ (name = base ∨ name = base ++ "\n") := by
  constructor
  · intro h
    have hcases := withoutFinalNewline_cases name.toList
    unfold isName at h
    split at h
    · cases h
    · rename_i c rest hname
      rw [Bool.and_eq_true, List.all_eq_true] at h
      refine ⟨String.ofList (c :: rest), ⟨c, rest, String.toList_ofList, h⟩, ?_⟩
      rw [hname] at hcases
      refine hcases.imp (fun heq => ?_) fun heq => ?_
      all_goals
        apply String.toList_inj.1
        rw [heq]
        simp
  · rintro ⟨base, hbase, hname⟩
    have hlist : Element.withoutFinalNewline name.toList = base.toList := by
      rcases hname with rfl | rfl
      · refine ((withoutFinalNewline_cases name.toList).resolve_right fun heq => ?_).symm
        have hm : '\n' ∈ name.toList := by
          rw [heq]
          simp
        exact absurd (hbase.isNameChar hm) (by decide)
      · rw [String.toList_append]
        exact withoutFinalNewline_append base.toList
    obtain ⟨c, rest, hcons, hstart, hrest⟩ := hbase
    simpa [isName, hlist, hcons, hstart] using hrest

end Props

/-! ## Style attributes -/

namespace Style

/-- What is kept of an attribute that passes is a text or the deletion mark. -/
theorem kept_of_checkOne {category : String} {value kept : Value}
    (h : checkOne category value = .ok kept) :
    isKnown category = true ∧ (kept = .null ∨ ∃ s, kept = .str s) := by
  unfold checkOne at h
  split at h
  · cases h
  · rename_i hknown
    refine ⟨by simpa using hknown, ?_⟩
    split at h
    · cases h
      exact Or.inl rfl
    · cases h
      exact Or.inr ⟨_, rfl⟩
    · split at h <;> cases h
      exact Or.inr ⟨_, rfl⟩
    · cases h

/-- What is kept of a category is what its own check gives; categories are not given twice. -/
theorem get?_checkEntries {es : List (String × Value)} {done kept : OrderedMap Value}
    (hn : (es.map Prod.fst).Nodup) (h : checkEntries done es = .ok kept) (category : String) :
    kept.get? category =
      match es.lookup category with
      | none => done.get? category
      | some value => (checkOne category value).toOption := by
  induction es generalizing done with
  | nil =>
    cases h
    rfl
  | cons e rest ih =>
    obtain ⟨c, value⟩ := e
    simp only [List.map_cons, List.nodup_cons] at hn
    rw [checkEntries] at h
    split at h
    · cases h
    rename_i k hk
    rw [ih hn.2 h, lookup_cons_pair, OrderedMap.get?_insert]
    by_cases hc : category = c
    · subst hc
      rw [lookup_eq_none_iff_not_mem.2 hn.1, if_pos rfl, if_pos rfl]
      exact (congrArg Except.toOption hk).symm
    · rw [if_neg hc, if_neg hc]

/-- What is kept of an attribute that passes is up to the attribute alone. -/
theorem get?_check {style kept : OrderedMap Value} (h : check style = .ok kept)
    (category : String) : kept.get? category =
      match style.get? category with
      | none => none
      | some value => (checkOne category value).toOption :=
  get?_checkEntries style.nodup_keys h category

/-- The check passes if it passes for every attribute by itself. -/
theorem exists_check_iff {style : OrderedMap Value} :
    (∃ kept, check style = .ok kept) ↔ ∀ p ∈ style.entries, ∃ k, checkOne p.1 p.2 = .ok k := by
  have hentries : ∀ (es : List (String × Value)) (done : OrderedMap Value),
      (∃ kept, checkEntries done es = .ok kept) ↔ ∀ p ∈ es, ∃ k, checkOne p.1 p.2 = .ok k := by
    intro es
    induction es with
    | nil => exact fun done => ⟨fun _ => nofun, fun _ => ⟨done, rfl⟩⟩
    | cons e rest ih =>
      intro done
      obtain ⟨category, value⟩ := e
      rw [List.forall_mem_cons, checkEntries]
      cases hone : checkOne category value with
      | error fault => simp
      | ok k => simp [ih]
  exact hentries style.entries .empty

/-- Everything that is kept was given. -/
theorem exists_of_mem_check {style kept : OrderedMap Value} (h : check style = .ok kept)
    {p : String × Value} (hp : p ∈ kept.entries) :
    ∃ value, style.get? p.1 = some value ∧ checkOne p.1 value = .ok p.2 := by
  have hkept := (kept.mem_entries_iff p.1 p.2).1 hp
  rw [get?_check h] at hkept
  split at hkept
  · cases hkept
  · rename_i value hvalue
    refine ⟨value, hvalue, ?_⟩
    cases hone : checkOne p.1 value with
    | error fault =>
      rw [hone] at hkept
      cases hkept
    | ok k =>
      rw [hone] at hkept
      cases hkept
      rfl

/-- Style attributes that pass are of known categories. -/
theorem known_of_check {style kept : OrderedMap Value} (h : check style = .ok kept) :
    (∀ category ∈ style.keys, isKnown category = true) ∧
      ∀ category ∈ kept.keys, isKnown category = true := by
  constructor
  · intro category hm
    obtain ⟨p, hp, rfl⟩ := List.mem_map.1 hm
    obtain ⟨k, hk⟩ := exists_check_iff.1 ⟨kept, h⟩ p hp
    exact (kept_of_checkOne hk).1
  · intro category hm
    obtain ⟨p, hp, rfl⟩ := List.mem_map.1 hm
    obtain ⟨value, -, hone⟩ := exists_of_mem_check h hp
    exact (kept_of_checkOne hone).1

end Style

/-! ## Overlays -/

/-- The entries of a map whose keys another one does not have. -/
def OrderedMap.without {α : Type} (m given : OrderedMap α) : OrderedMap α :=
  ⟨m.entries.filter fun p => !given.contains p.1,
    m.nodup_keys.sublist (List.filter_sublist.map _)⟩

theorem OrderedMap.mem_without {α : Type} {m given : OrderedMap α} {p : String × α} :
    p ∈ (m.without given).entries ↔ p ∈ m.entries ∧ given.get? p.1 = none := by
  simp [without, contains]

/-- An overlay holds what the update leaves of the base and what the update sets; deletion marks
set nothing. -/
theorem mem_overlay_iff {base update : OrderedMap Value} {p : String × Value} :
    p ∈ (overlay base update).entries ↔
      p ∈ (base.without update).entries ∨ p ∈ update.entries ∧ p.2 ≠ .null := by
  obtain ⟨key, value⟩ := p
  rw [OrderedMap.mem_without, OrderedMap.mem_entries_iff, OrderedMap.mem_entries_iff,
    OrderedMap.mem_entries_iff, get?_overlay]
  cases update.get? key with
  | none => simp
  | some v => cases v <;> simp [Value.isNull] <;> rintro rfl <;> simp

theorem mem_of_overlay {base update : OrderedMap Value} {p : String × Value}
    (h : p ∈ (overlay base update).entries) :
    p ∈ base.entries ∨ p ∈ update.entries ∧ p.2 ≠ .null :=
  (mem_overlay_iff.1 h).imp_left fun hp => (OrderedMap.mem_without.1 hp).1

/-- What is set in an update is good, so it is up to the rest of the base. -/
theorem forall_overlay_iff {good : String × Value → Prop} {base update : OrderedMap Value}
    (hu : ∀ p ∈ update.entries, p.2 ≠ .null → good p) :
    (∀ p ∈ (overlay base update).entries, good p) ↔
      ∀ p ∈ (base.without update).entries, good p := by
  constructor
  · exact fun h p hp => h p (mem_overlay_iff.2 (Or.inl hp))
  · intro h p hp
    rcases mem_overlay_iff.1 hp with hp | ⟨hp, hne⟩
    · exact h p hp
    · exact hu p hp hne

/-- Props that pass, overlaid by an update that passes, pass. -/
theorem Props.check_overlay {base update : OrderedMap Value} (h : Props.check base = .ok ())
    (hu : Props.check update = .ok ()) : Props.check (overlay base update) = .ok () := by
  apply (Props.checkEntries_eq_ok_iff _).2
  intro p hp
  rcases mem_of_overlay hp with hp | ⟨hp, -⟩
  · exact (Props.checkEntries_eq_ok_iff _).1 h p hp
  · exact (Props.checkEntries_eq_ok_iff _).1 hu p hp

end PageBuilder
