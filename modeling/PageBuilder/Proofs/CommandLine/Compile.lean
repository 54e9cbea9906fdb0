import PageBuilder.CommandLine.Run
import PageBuilder.Proofs.Archive.Gate
import PageBuilder.Proofs.Markup.Layout
import PageBuilder.Proofs.Session.Vocabulary

/-!
# How the content of a file is compiled and inspected

A document that was read is a tree of elements under their own ids, so nothing that is looked up
while code is written can be missing, and no value in it is without a text.  There are three ways
left for compiling to end (`Outcome`): it is refused, because the dialect or a kind is unknown; it
stops, because its lines cannot be indented as far as asked for (`stop?`); or the code is written.
The order of the checks matters only in that the first way comes before the second.
-/

namespace PageBuilder

open Results

/-- The catalog has the kinds of all elements of a page. -/
def Page.KindsKnown (catalog : Catalog) (page : Page) : Prop :=
  ∀ {id e}, page.get? id = some e → catalog.contains e.kind = true

theorem Page.not_kindsKnown_iff {catalog : Catalog} {page : Page} :
    ¬ page.KindsKnown catalog ↔
      ∃ id e, page.get? id = some e ∧ catalog.contains e.kind = false := by
  simp [KindsKnown]

namespace CommandLine

variable {machine : Machine} {octets : List UInt8} {snapshot : Snapshot} {trouble : Trouble}
  {failure : Failure}

/-! ## Documents -/

/-- A document that is read is valid, and its integers can be written. -/
theorem valid_of_snapshotOf (h : snapshotOf machine octets = .ok snapshot) :
    Archive.DocumentValid .builtIn snapshot ∧ Archive.Writable snapshot := by
  unfold snapshotOf at h
  split at h
  · cases h
  · rename_i cs _
    dsimp only at h
    split at h
    · cases h
    · cases hread : Archive.read (String.ofList (Text.unifyNewlines cs)) .builtIn with
      | error failure =>
        rw [hread] at h
        cases h
      | ok read =>
        rw [hread] at h
        cases h
        exact Archive.valid_of_read hread

/-- A document is nested too deeply to be read. -/
def NestedTooDeeply (machine : Machine) (octets : List UInt8) : Prop :=
  ∃ cs, Text.Utf8.decode octets = .ok cs ∧
    machine.nestsTooDeep (String.ofList (Text.unifyNewlines cs)) = true

/-- Whatever else is wrong with a document is reported. -/
theorem trouble_of_snapshotOf (h : snapshotOf machine octets = .error trouble) :
    trouble.passedOn? = none ∨
      trouble = .failure .nestedTooDeeply ∧ NestedTooDeeply machine octets := by
  unfold snapshotOf at h
  split at h
  · cases h
    exact Or.inl rfl
  · rename_i cs hdecode
    dsimp only at h
    split at h
    · rename_i hnested
      cases h
      exact Or.inr ⟨rfl, cs, hdecode, hnested⟩
    · left
      cases hread : Archive.read (String.ofList (Text.unifyNewlines cs)) .builtIn with
      | error failure =>
        rw [hread] at h
        cases h
        rcases Archive.read_error_cases hread with ⟨fault, rfl⟩ | ⟨digits, -, rfl⟩ <;> rfl
      | ok read =>
        rw [hread] at h
        cases h

theorem snapshotOf_of_nested (h : NestedTooDeeply machine octets) :
    snapshotOf machine octets = .error (.failure .nestedTooDeeply) := by
  obtain ⟨cs, hdecode, hnested⟩ := h
  simp only [snapshotOf, hdecode, hnested, if_true]

/-! ## Outcomes -/

/-- How an attempt can end to write something that needs certain conditions, and may be stopped by
what has to do with indenting lines. -/
inductive Outcome {α : Type} (ready : Prop) (stop : Option Failure) : Except Failure α → Prop
  | refused {failure : Failure} (hready : ¬ ready) (hrefusal : isRefusal failure = true) :
      Outcome ready stop (.error failure)
  | stopped {failure : Failure} (hready : ready) (hstop : stop = some failure) :
      Outcome ready stop (.error failure)
  | written {a : α} (hready : ready) (hstop : stop = none) : Outcome ready stop (.ok a)

namespace Outcome

variable {α β : Type} {ready ready' : Prop} {stop stop' : Option Failure}
  {result : Except Failure α}

theorem map (h : Outcome ready stop result) (f : α → β) : Outcome ready stop (f <$> result) := by
  cases h with
  | refused hready hrefusal => exact .refused hready hrefusal
  | stopped hready hstop => exact .stopped hready hstop
  | written hready hstop => exact .written hready hstop

theorem congr (h : Outcome ready stop result) (hready : ready ↔ ready') (hstop : stop = stop') :
    Outcome ready' stop' result := by
  rw [← hstop, ← propext hready]
  exact h

end Outcome

/-- Why no line can be indented by the width that options give: it is no 64-bit number. -/
def widthFault? (options : Source.Options) : Option Failure :=
  match options.unit with
  | .error failure => some failure
  | .ok _ => none

theorem widthFault?_of_pos {options : Source.Options} (h : 0 < options.indent) :
    widthFault? options =
      if (Nat.pow 2 63 : Int) ≤ options.indent then some .indentTooWide else none := by
  have hlow : ¬ options.indent < -(Nat.pow 2 63 : Int) := by
    have : (0 : Int) ≤ (Nat.pow 2 63 : Int) := Int.natCast_nonneg _
    omega
  rw [widthFault?, Source.Options.unit]
  by_cases htop : (Nat.pow 2 63 : Int) ≤ options.indent
  · simp only [hlow, htop, decide_true, Bool.or_true, if_true]
  · simp only [hlow, htop, decide_false, Bool.or_self, Bool.false_eq_true, if_false]

/-- The dialect is looked at first, then the kinds, and the width only when there is something to
write. -/
theorem generate_outcome (hl : snapshot.page.Linked) (htexts : snapshot.page.HasTexts)
    (options : Source.Options) (catalog : Catalog) :
    Outcome (Failure.dialectNames.contains options.dialect = true ∧
        snapshot.page.KindsKnown catalog.orBuiltIn)
      (widthFault? options) (Source.generate snapshot options catalog) := by
  by_cases hdialect : Failure.dialectNames.contains options.dialect = true
  · have hcheck : options.checkDialect = .ok () := if_pos hdialect
    by_cases hkinds : snapshot.page.KindsKnown catalog.orBuiltIn
    · obtain ⟨known, hknown, -, hlines⟩ := Markup.exists_markup hl hkinds
      cases hunit : options.unit with
      | error failure =>
        rw [Source.generate, hcheck, ok_bind, hknown, ok_bind, hunit, error_bind]
        exact .stopped ⟨hdialect, hkinds⟩ (by rw [widthFault?, hunit])
      | ok unit =>
        have hbody : ∃ body, Source.bodyLines snapshot.page known unit = .ok body := by
          unfold Source.bodyLines
          cases hroot : snapshot.page.root with
          | none => exact ⟨_, rfl⟩
          | some root =>
            obtain ⟨lines, hlines⟩ := hlines hroot htexts unit
            simp only [Markup.linesFrom_deeper _ _ _ _ 2, hlines]
            exact ⟨_, rfl⟩
        obtain ⟨body, hbody⟩ := hbody
        rw [Source.generate, hcheck, ok_bind, hknown, ok_bind, hunit, ok_bind, hbody, ok_bind]
        exact .written ⟨hdialect, hkinds⟩ (by rw [widthFault?, hunit])
    · obtain ⟨id, e, he, hkind⟩ := Page.not_kindsKnown_iff.1 hkinds
      obtain ⟨failure, hfail, -, f, -, -, rfl⟩ := Markup.components_unknown hl he hkind
      rw [Source.generate, hcheck, ok_bind, hfail, error_bind]
      exact .refused (fun hready => hkinds hready.2) rfl
  · have hcheck : options.checkDialect = .error (.unknownDialect options.dialect) :=
      if_neg hdialect
    rw [Source.generate, hcheck, error_bind]
    exact .refused (fun hready => hdialect hready.1) rfl

/-- An empty page has no lines to indent. -/
theorem generateMarkup_outcome (hl : snapshot.page.Linked) (htexts : snapshot.page.HasTexts)
    (options : Source.Options) (catalog : Catalog) :
    Outcome (snapshot.page.KindsKnown catalog.orBuiltIn)
      (if snapshot.page.root = none then none else widthFault? options)
      (Source.generateMarkup snapshot options catalog) := by
  by_cases hkinds : snapshot.page.KindsKnown catalog.orBuiltIn
  · obtain ⟨known, hknown, -, hlines⟩ := Markup.exists_markup hl hkinds
    rw [Source.generateMarkup, hknown, ok_bind]
    cases hroot : snapshot.page.root with
    | none => exact .written hkinds rfl
    | some root =>
      rw [if_neg (Option.some_ne_none root)]
      cases hunit : options.unit with
      | error failure =>
        simp only [error_bind]
        exact .stopped hkinds (by rw [widthFault?, hunit])
      | ok unit =>
        obtain ⟨lines, hlines⟩ := hlines hroot htexts unit
        simp only [ok_bind, hlines]
        exact .written hkinds (by rw [widthFault?, hunit])
  · obtain ⟨id, e, he, hkind⟩ := Page.not_kindsKnown_iff.1 hkinds
    obtain ⟨failure, hfail, -, f, -, -, rfl⟩ := Markup.components_unknown hl he hkind
    rw [Source.generateMarkup, hfail, error_bind]
    exact .refused hkinds rfl

/-! ## Compiling -/

/-- What is asked of a document that is to be compiled: kinds that are known and, unless the markup
alone is wanted, a dialect that is known. -/
def Ready (options : Source.Options) (markup : Bool) (page : Page) : Prop :=
  page.KindsKnown .builtIn ∧
    (markup = false → Failure.dialectNames.contains options.dialect = true)

/-- Why code that could be written else is not.  The markup of an empty page has no line to
indent. -/
def stop? (machine : Machine) (options : Source.Options) (markup : Bool) (page : Page) :
    Option Failure :=
  if markup = true ∧ page.root = none then none
  else (widthFault? options).or
    (if machine.holds options.indent.toNat then none else some .outOfMemory)

theorem codeOf_outcome (hl : snapshot.page.Linked) (htexts : snapshot.page.HasTexts)
    (options : Source.Options) (markup : Bool) :
    Outcome (Ready options markup snapshot.page)
      (if markup = true ∧ snapshot.page.root = none then none else widthFault? options)
      (codeOf markup snapshot options) := by
  have hcatalog : Catalog.builtIn.orBuiltIn = .builtIn := rfl
  cases markup with
  | true =>
    refine (generateMarkup_outcome hl htexts options .builtIn).congr ?_ ?_
    · simp [Ready, hcatalog]
    · simp
  | false =>
    refine ((generate_outcome hl htexts options .builtIn).map Source.text).congr ?_ ?_
    · simp [Ready, hcatalog, and_comm]
    · simp

theorem exceeds_iff {markup : Bool} {options : Source.Options} :
    exceeds machine markup snapshot options = true ↔
      ¬ (markup = true ∧ snapshot.page.root = none) ∧
        options.indent < (Nat.pow 2 63 : Int) ∧ machine.holds options.indent.toNat = false := by
  simp only [exceeds, Bool.and_eq_true, Bool.not_eq_true', decide_eq_true_eq, ← Bool.not_eq_true,
    Option.isNone_iff_eq_none, and_assoc]

/-- Code needs a document. -/
theorem compile_of_unread {trouble : Trouble} (hplain : isStray octets = false)
    (h : snapshotOf machine octets = .error trouble) (preferences : Preferences) (args : Args) :
    compile machine preferences args octets = .error trouble := by
  rw [compile, if_neg (Bool.eq_false_iff.1 hplain), h, error_bind]

/-- The troubles of compiling are those of reading the document and of writing its code. -/
theorem compile_of_snapshotOf {preferences : Preferences} {args : Args}
    (hpos : 0 < (optionsOf preferences args).indent) (hplain : isStray octets = false)
    (h : snapshotOf machine octets = .ok snapshot) :
    ∃ result, compile machine preferences args octets = result.mapError .failure ∧
      Outcome (Ready (optionsOf preferences args) args.markup snapshot.page)
        (stop? machine (optionsOf preferences args) args.markup snapshot.page) result := by
  obtain ⟨hv, hw⟩ := valid_of_snapshotOf h
  have hl := (Page.problems_eq_nil_iff.1 hv.consistent).1.linked
  have htexts := (Archive.hasTexts_iff_writable hv).2 hw
  generalize hoptions : optionsOf preferences args = options at hpos ⊢
  rw [compile, if_neg (Bool.eq_false_iff.1 hplain), h, ok_bind]
  refine ⟨_, rfl, ?_⟩
  simp only [hoptions]
  split
  case isTrue hexceeds =>
    obtain ⟨hindents, htop, hholds⟩ := exceeds_iff.1 hexceeds
    -- Memory is asked for after all that is wrong with the document whatever the width.
    have hnarrow := codeOf_outcome hl htexts { options with indent := 0 } args.markup
    have hzero : widthFault? { options with indent := 0 } = none := rfl
    rw [hzero, ite_self] at hnarrow
    generalize codeOf args.markup snapshot { options with indent := 0 } = code at hnarrow ⊢
    cases hnarrow with
    | refused hready hrefusal => exact .refused hready hrefusal
    | stopped _ hstop => cases hstop
    | written hready _ =>
      refine .stopped hready ?_
      rw [stop?, if_neg hindents, widthFault?_of_pos hpos, if_neg (Int.not_le.2 htop), hholds]
      rfl
  case isFalse hexceeds =>
    refine (codeOf_outcome hl htexts options args.markup).congr Iff.rfl ?_
    rw [stop?]
    split
    case isTrue => rfl
    case isFalse hindents =>
      rw [widthFault?_of_pos hpos]
      split
      case isTrue => rfl
      case isFalse htop =>
        have hholds : machine.holds options.indent.toNat = true := by
          by_contra hnot
          exact hexceeds (exceeds_iff.2 ⟨hindents, Int.not_le.1 htop, Bool.eq_false_iff.2 hnot⟩)
        rw [hholds]
        rfl

/-! ## Inspecting -/

/-- What is told of a page: its problems, each on a line, its size and its digest. -/
def findings (problems : List Problem) (size : Nat) (digest : String) : Report where
  status := if problems.isEmpty then 0 else 1
  pieces := (problems.map fun problem => "  " ++ problem.message ++ "\n") ++
    [toString size ++ " elements, fingerprint " ++ digest ++ "\n"]

theorem inspect_of_unread {trouble : Trouble} (hplain : isStray octets = false)
    (h : snapshotOf machine octets = .error trouble) :
    inspect machine octets = .error trouble := by
  rw [inspect, if_neg (Bool.eq_false_iff.1 hplain), h, error_bind]

/-- A document that was read is always inspected to the end. -/
theorem inspect_of_snapshotOf (hplain : isStray octets = false)
    (h : snapshotOf machine octets = .ok snapshot) :
    ∃ digest, Archive.digest snapshot = .ok digest ∧
      inspect machine octets =
        .ok (findings (snapshot.page.problems .builtIn true) snapshot.page.size digest) := by
  obtain ⟨hv, hw⟩ := valid_of_snapshotOf h
  obtain ⟨ids, hdraft⟩ :=
    Archive.exists_ofPage_valid .builtIn {} (Archive.isValidId_of_mem_keys hv)
  obtain ⟨digest, hdigest⟩ : ∃ digest, Archive.digest snapshot = .ok digest := by
    rw [Archive.digest, Archive.writableJson_eq hv hw]
    exact ⟨_, rfl⟩
  refine ⟨digest, hdigest, ?_⟩
  rw [inspect, if_neg (Bool.eq_false_iff.1 hplain), h, ok_bind, inspection, hdraft, ok_bind,
    hdigest, ok_bind]
  rfl

end CommandLine

end PageBuilder
