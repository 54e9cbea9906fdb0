import PageBuilder.Proofs.CommandLine.Endings
import PageBuilder.Proofs.Page.Survey

/-!
# Checking and compiling agree

`check` looks for problems in the order of its own survey, and code is written in the order of
lines, each with its own look-up of kinds.  They agree nevertheless: a document is not read at all
if anything is wrong with its structure, so all that is left to find for either is an element of an
unknown kind (`HoldsKnown`), and both go through all elements.

That is what they come to.  It is also what a run ends with if everything can be printed: of a
document in order the check prints nothing that is in it, and the code all of it.  And problems are
printed with ids and kinds as they are, so a kind with a line feed in it takes more than a line.

A file whose name is an option is never read.  What is done instead does not depend on the command
either (`parse_dash`).
-/

namespace PageBuilder.CommandLine

open Results

variable {file : String} {args : Args} {argv : List String}

/-! ## Arguments -/

namespace Args

/-- The options that stand alone. -/
def flags : List String :=
  ["--markup", "--no-imports", "--help", "-h", "--version", "-v"]

theorem startsWith_of_option : ∀ option ∈ valued ++ flags, option.startsWith "-" = true := by
  simp only [String.startsWith_string_iff]
  decide

/-- After a command, anything but an option is taken for a file. -/
theorem takeAlone_eq_takeWord (hcommand : args.command.isSome = true) (hflag : file ∉ flags) :
    args.takeAlone file = args.takeWord file := by
  unfold takeAlone
  split
  case h_7 =>
    cases Command.ofName? file with
    | none => rfl
    | some command =>
      obtain ⟨given, hgiven⟩ := Option.isSome_iff_exists.1 hcommand
      simp [hgiven]
  all_goals exact absurd (by decide) hflag

theorem parse_command (command : Command) (hoption : file ∉ valued ++ flags)
    (rest : List String) :
    Args.parse (command.name :: file :: rest) =
      ({ command := some command } : Args).takeWord file >>= fun args => takeAll args rest := by
  have hname : valued.contains command.name = false := by cases command <;> rfl
  have hcommand : ({} : Args).takeAlone command.name = .ok { command := some command } := by
    cases command <;> rfl
  have hvalued : valued.contains file = false := by
    simpa using fun hm => hoption (List.mem_append_left _ hm)
  rw [Args.parse, takeAll_alone hname, hcommand, ok_bind, takeAll_alone hvalued,
    takeAlone_eq_takeWord rfl fun hm => hoption (List.mem_append_right _ hm)]

/-- The arguments that name a command and a file, and ask for the markup alone or not. -/
def line (command : Command) (markup : Bool) (file : String) : List String :=
  command.name :: file :: if markup then ["--markup"] else []

theorem parse_line (command : Command) (markup : Bool) (h : file.startsWith "-" = false) :
    Args.parse (line command markup file) =
      .ok { command := some command, file := some file, markup := markup } := by
  have hoption : file ∉ valued ++ flags := by
    intro hm
    exact absurd ((startsWith_of_option file hm).symm.trans h) (by simp)
  rw [line, parse_command command hoption, takeWord]
  simp only [h, Bool.false_eq_true, if_false]
  cases markup <;> rfl

/-! ### Without a file -/

/-- No file is named. -/
def isUnfiled : Except UsageFault Args → Bool
  | .error _ => true
  | .ok args => args.file.isNone

/-- Help or the version is asked for. -/
def asksForHelp : Except UsageFault Args → Bool
  | .error _ => false
  | .ok args => args.help || args.version

theorem parse_option (command : Command) (markup : Bool) : ∀ option ∈ valued ++ flags,
    isUnfiled (Args.parse (line command markup option)) = true ∧
      asksForHelp (Args.parse (line command markup option)) =
        ["--help", "-h", "--version", "-v"].contains option := by
  cases command <;> cases markup <;> decide +kernel

/-- An option in the place of the file leaves the command without one, whichever it is. -/
theorem parse_dash (command : Command) (markup : Bool) (h : file.startsWith "-" = true) :
    isUnfiled (Args.parse (line command markup file)) = true ∧
      asksForHelp (Args.parse (line command markup file)) =
        ["--help", "-h", "--version", "-v"].contains file := by
  by_cases hoption : file ∈ valued ++ flags
  · exact parse_option command markup file hoption
  · rw [line, parse_command command hoption, takeWord]
    simp only [h, if_true, error_bind]
    simp only [valued, flags, List.mem_append, List.mem_cons, List.not_mem_nil, or_false,
      not_or] at hoption
    simp [isUnfiled, asksForHelp, hoption]

end Args

/-! ## Success -/

/-- A command line ends with status 0. -/
def Succeeds (ending : Except Failure Response) : Prop :=
  ∃ output, ending = .ok ⟨0, output⟩

section Printing

variable {machine : Machine}

theorem not_succeeds_tell (printed words : String) : ¬ Succeeds (machine.tell printed words) := by
  rintro ⟨output, h⟩
  rcases tell_cases machine printed words with htold | ⟨cause, -, htold⟩ <;>
    cases htold.symm.trans h

theorem not_succeeds_of_trouble (trouble : Trouble) :
    ¬ Succeeds (machine.settle (.error trouble)) := by
  cases h : trouble.passedOn? with
  | none =>
    rw [settle_of_told h]
    exact not_succeeds_tell _ _
  | some failure =>
    rw [settle_of_passedOn h]
    rintro ⟨output, ⟨⟩⟩

theorem settle_of_printed {report : Report}
    (hprints : ∀ piece ∈ report.pieces, machine.console piece = none) :
    machine.settle (.ok report) = .ok ⟨report.status, String.join report.pieces⟩ := by
  simp only [Machine.settle, print_eq hprints]

end Printing

section Runs

variable {σ : Type} {access : FileAccess (StateM σ)} {machine : Machine}
  {preferences : Preferences} {state : σ} {octets : List UInt8} {snapshot : Snapshot}

/-- Without a file there is nothing to be done but to help. -/
theorem perform_of_unfiled (access : FileAccess (StateM σ)) (machine : Machine)
    (preferences : Preferences) (h : args.file = none) :
    ∃ answer, perform access machine preferences args =
      pure (machine.say (if args.help || args.version then 0 else 1) [answer]) := by
  cases hhelp : args.help with
  | true =>
    rw [perform, if_pos hhelp]
    exact ⟨helpText, rfl⟩
  | false =>
  cases hversion : args.version with
  | true =>
    rw [perform, if_neg (by simp [hhelp]), if_pos hversion]
    exact ⟨versionText, rfl⟩
  | false =>
    rw [perform, if_neg (by simp [hhelp]), if_neg (by simp [hversion]), h]
    cases args.command with
    | none => exact ⟨helpText, rfl⟩
    | some command => exact ⟨helpText, rfl⟩

theorem succeeds_iff_of_isUnfiled (access : FileAccess (StateM σ))
    (hprints : ∀ text, machine.console text = none)
    (hlevel : setUpLogging machine preferences = .ok ()) (state : σ)
    (h : Args.isUnfiled (Args.parse argv) = true) :
    Succeeds (runWith access machine preferences argv state).1 ↔
      Args.asksForHelp (Args.parse argv) = true := by
  have hsay (status : Nat) (pieces : List String) :
      machine.say status pieces = .ok ⟨status, String.join pieces⟩ := by
    simp only [Machine.say, print_eq fun piece _ => hprints piece]
  cases hparse : Args.parse argv with
  | error usage =>
    have hnot : ¬ Succeeds (runWith access machine preferences argv state).1 := by
      by_cases hnumeral : ∃ text fault, usage = .numeral text fault
      · obtain ⟨text, fault, rfl⟩ := hnumeral
        rw [runWith_of_numeral access machine preferences hparse]
        rintro ⟨output, ⟨⟩⟩
      · rw [runWith_of_usage access machine preferences hparse fun text fault heq =>
          hnumeral ⟨text, fault, heq⟩, hsay]
        rintro ⟨output, ⟨⟩⟩
    simp [hnot, Args.asksForHelp]
  | ok args =>
    have hfile : args.file = none := by simpa [hparse, Args.isUnfiled] using h
    obtain ⟨answer, hperform⟩ := perform_of_unfiled access machine preferences hfile
    rw [runWith_of_parse access hparse hlevel, hperform, Args.asksForHelp]
    show Succeeds (machine.say _ _) ↔ _
    rw [hsay]
    cases args.help || args.version <;> simp [Succeeds]

/-- A file can be read and holds a document of which all kinds are known. -/
def HoldsKnown (access : FileAccess (StateM σ)) (machine : Machine) (state : σ) (file : String) :
    Prop :=
  ∃ octets snapshot, Reads access state file octets ∧
    snapshotOf machine octets = .ok snapshot ∧ snapshot.page.KindsKnown .builtIn

/-- What is printed of the elements of a page that are of unknown kinds. -/
def unknownKinds (walk : List Element) : List Problem :=
  (walk.filter fun e => !Catalog.builtIn.contains e.kind).map fun e => .unknownKind e.id e.kind

/-- A document that was read is found to be at fault only for kinds. -/
theorem inspect_eq (hplain : isStray octets = false)
    (h : snapshotOf machine octets = .ok snapshot) :
    ∃ walk digest, snapshot.page.LastFirst walk ∧ walk.Perm snapshot.page.elements.values ∧
      Archive.digest snapshot = .ok digest ∧
      inspect machine octets =
        .ok (findings (unknownKinds walk) snapshot.page.size digest) := by
  obtain ⟨hv, -⟩ := valid_of_snapshotOf h
  obtain ⟨walk, hwalk, hperm, hproblems⟩ := Page.problems_of_known_structure hv.keyed hv.consistent
  obtain ⟨digest, hdigest, hinspect⟩ := inspect_of_snapshotOf hplain h
  have hfound : snapshot.page.problems .builtIn true = unknownKinds walk := hproblems
  exact ⟨walk, digest, hwalk, hperm, hdigest, hfound ▸ hinspect⟩

theorem isEmpty_unknownKinds_iff (hk : snapshot.page.Keyed) {walk : List Element}
    (hperm : walk.Perm snapshot.page.elements.values) :
    (unknownKinds walk).isEmpty = true ↔ snapshot.page.KindsKnown .builtIn := by
  simp only [unknownKinds, List.isEmpty_iff, List.map_eq_nil_iff, List.filter_eq_nil_iff,
    hperm.mem_iff, hk.mem_values_iff, Bool.not_eq_true', Bool.not_eq_false]
  constructor
  · intro h id e he
    have hid : e.id = id := hk he
    exact h e (hid ▸ he)
  · exact fun h e he => h he

/-! ## The two commands -/

theorem not_holdsKnown_of_unread {unread : FileFault}
    (hread : (access.read (Path.ofText file) state).1 = .error unread) :
    ¬ HoldsKnown access machine state file := by
  rintro ⟨octets, snapshot, ⟨hok, -⟩, -⟩
  cases hread.symm.trans hok

theorem not_holdsKnown_of_trouble {trouble : Trouble} (hread : Reads access state file octets)
    (hsnapshot : snapshotOf machine octets = .error trouble) :
    ¬ HoldsKnown access machine state file := by
  rintro ⟨given, snapshot, hgiven, hok, -⟩
  cases hread.read.symm.trans hgiven.read
  cases hsnapshot.symm.trans hok

theorem holdsKnown_iff (hread : Reads access state file octets)
    (hsnapshot : snapshotOf machine octets = .ok snapshot) :
    HoldsKnown access machine state file ↔ snapshot.page.KindsKnown .builtIn := by
  constructor
  · rintro ⟨given, read, hgiven, hok, hkinds⟩
    cases hread.read.symm.trans hgiven.read
    cases hsnapshot.symm.trans hok
    exact hkinds
  · exact fun hkinds => ⟨octets, snapshot, hread, hsnapshot, hkinds⟩

section Printed

variable (hprints : ∀ text, machine.console text = none)
  (hplain : ∀ octets, (access.read (Path.ofText file) state).1 = .ok octets →
    isStray octets = false)
include hprints hplain

theorem succeeds_check_iff :
    Succeeds (machine.settle (carryOut access machine preferences args .check file state).1) ↔
      HoldsKnown access machine state file := by
  cases hunread : (access.read (Path.ofText file) state).1 with
  | error unread =>
    rw [carryOut_of_unread hunread]
    exact iff_of_false (not_succeeds_of_trouble _) (not_holdsKnown_of_unread hunread)
  | ok octets =>
  have hread : Reads access state file octets := ⟨hunread, hplain octets hunread⟩
  rw [carryOut, runCheck_eq hread]
  cases hsnapshot : snapshotOf machine octets with
  | error trouble =>
    rw [inspect_of_unread hread.plain hsnapshot]
    exact iff_of_false (not_succeeds_of_trouble _) (not_holdsKnown_of_trouble hread hsnapshot)
  | ok snapshot =>
    obtain ⟨walk, digest, -, hperm, -, hinspect⟩ := inspect_eq hread.plain hsnapshot
    rw [hinspect, settle_of_printed fun piece _ => hprints piece, holdsKnown_iff hread hsnapshot,
      ← isEmpty_unknownKinds_iff (valid_of_snapshotOf hsnapshot).1.keyed hperm, findings]
    cases (unknownKinds walk).isEmpty <;> simp [Succeeds]

omit hprints hplain in
/-- Preferences say a dialect that is known. -/
theorem dialect_optionsOf_known (hdialect : args.dialect = none) (preferences : Preferences) :
    Failure.dialectNames.contains (optionsOf preferences args).dialect = true := by
  show Failure.dialectNames.contains (args.dialect.getD
    (if Failure.dialectNames.contains preferences.dialect then preferences.dialect else "tsx")) =
      true
  rw [hdialect, Option.getD_none]
  split
  · assumption
  · decide

omit hprints hplain in
/-- An indentation that memory holds leaves nothing to stop at. -/
theorem stop?_eq_none {options : Source.Options} (hpos : 0 < options.indent)
    (hwidth : options.indent < (Nat.pow 2 63 : Int))
    (hholds : machine.holds options.indent.toNat = true) (markup : Bool) (page : Page) :
    stop? machine options markup page = none := by
  rw [stop?, widthFault?_of_pos hpos, if_neg (Int.not_le.2 hwidth), hholds]
  exact ite_self _

/-- With options left to the preferences, writing needs nothing but known kinds. -/
theorem succeeds_generate_iff (hdialect : args.dialect = none) (hout : args.out = none)
    (hpos : 0 < (optionsOf preferences args).indent)
    (hwidth : (optionsOf preferences args).indent < (Nat.pow 2 63 : Int))
    (hholds : machine.holds (optionsOf preferences args).indent.toNat = true) :
    Succeeds (machine.settle (carryOut access machine preferences args .generate file state).1) ↔
      HoldsKnown access machine state file := by
  cases hunread : (access.read (Path.ofText file) state).1 with
  | error unread =>
    rw [carryOut_of_unread hunread]
    exact iff_of_false (not_succeeds_of_trouble _) (not_holdsKnown_of_unread hunread)
  | ok octets =>
  have hread : Reads access state file octets := ⟨hunread, hplain octets hunread⟩
  rw [carryOut]
  cases hsnapshot : snapshotOf machine octets with
  | error trouble =>
    rw [runGenerate_of_trouble hread (compile_of_unread hread.plain hsnapshot preferences args)]
    exact iff_of_false (not_succeeds_of_trouble _) (not_holdsKnown_of_trouble hread hsnapshot)
  | ok snapshot =>
    rw [holdsKnown_iff hread hsnapshot]
    obtain ⟨result, hcompile, houtcome⟩ :=
      compile_of_snapshotOf hpos hread.plain hsnapshot
    -- A dialect from the preferences is always a known one.
    have hready : Ready (optionsOf preferences args) args.markup snapshot.page ↔
        snapshot.page.KindsKnown .builtIn :=
      and_iff_left fun _ => dialect_optionsOf_known hdialect preferences
    cases houtcome with
    | refused hnot hrefusal =>
      rw [runGenerate_of_trouble hread hcompile]
      exact iff_of_false (not_succeeds_of_trouble _) fun hkinds => hnot (hready.2 hkinds)
    | stopped _ hstop => cases (stop?_eq_none hpos hwidth hholds _ _).symm.trans hstop
    | written hthen _ =>
      rw [runGenerate_of_code hread hcompile hout, settle_of_printed fun piece _ => hprints piece]
      exact iff_of_true ⟨_, rfl⟩ (hready.1 hthen)

/-! ## Whole runs -/

/-- Whether a run succeeds depends neither on the command nor on what is asked of the code. -/
theorem succeeds_iff_of_line (hlevel : setUpLogging machine preferences = .ok ())
    (hwidth : (optionsOf preferences {}).indent < (Nat.pow 2 63 : Int))
    (hholds : machine.holds (optionsOf preferences {}).indent.toNat = true)
    (command : Command) (markup : Bool) :
    Succeeds (runWith access machine preferences (Args.line command markup file) state).1 ↔
      if file.startsWith "-" then ["--help", "-h", "--version", "-v"].contains file = true
      else HoldsKnown access machine state file := by
  cases hdash : file.startsWith "-" with
  | true =>
    obtain ⟨hunfiled, hasks⟩ := Args.parse_dash command markup hdash
    rw [succeeds_iff_of_isUnfiled access hprints hlevel state hunfiled, hasks, if_pos rfl]
  | false =>
    rw [runWith_of_runs access (Args.parse_line command markup hdash) hlevel ⟨rfl, rfl, rfl, rfl⟩,
      if_neg Bool.false_ne_true]
    cases command with
    | check => exact succeeds_check_iff hprints hplain
    | generate =>
      have hpos : 0 < (optionsOf preferences {}).indent :=
        indent_optionsOf_pos (by rintro n ⟨⟩) preferences
      exact succeeds_generate_iff hprints hplain rfl rfl hpos hwidth hholds

end Printed

/-- The check of a document that was read ends with what is found of its kinds, as far as that can
be printed. -/
theorem check_eq (hlevel : setUpLogging machine preferences = .ok ())
    (hdash : file.startsWith "-" = false) (hread : Reads access state file octets)
    (hsnapshot : snapshotOf machine octets = .ok snapshot) :
    ∃ walk digest, snapshot.page.LastFirst walk ∧ walk.Perm snapshot.page.elements.values ∧
      Archive.digest snapshot = .ok digest ∧
      (runWith access machine preferences ["check", file] state).1 =
        machine.settle (.ok (findings (unknownKinds walk) snapshot.page.size digest)) := by
  obtain ⟨walk, digest, hwalk, hperm, hdigest, hinspect⟩ := inspect_eq hread.plain hsnapshot
  refine ⟨walk, digest, hwalk, hperm, hdigest, ?_⟩
  rw [← hinspect, ← runCheck_eq hread]
  exact runWith_of_runs access (Args.parse_line .check false hdash) hlevel ⟨rfl, rfl, rfl, rfl⟩
    state

/-- Where everything can be printed and memory holds the indentation that the preferences say, the
check of a file, the compilation of it and that of its markup succeed together.  The check of a
document that was read prints its elements of unknown kinds, each in words of its own and in the
order of the check, then the size and the digest; it succeeds if there are none of them. -/
theorem check_agrees_with_generate (access : FileAccess (StateM σ))
    (hprints : ∀ text, machine.console text = none)
    (hlevel : setUpLogging machine preferences = .ok ())
    (hwidth : (optionsOf preferences {}).indent < (Nat.pow 2 63 : Int))
    (hholds : machine.holds (optionsOf preferences {}).indent.toNat = true) (file : String)
    (state : σ) (hplain : ∀ octets, (access.read (Path.ofText file) state).1 = .ok octets →
      isStray octets = false) :
    let checking := (runWith access machine preferences ["check", file] state).1
    (Succeeds checking ↔
      Succeeds (runWith access machine preferences ["generate", file] state).1) ∧
    (Succeeds checking ↔
      Succeeds (runWith access machine preferences ["generate", file, "--markup"] state).1) ∧
    ∀ octets snapshot, file.startsWith "-" = false →
      (access.read (Path.ofText file) state).1 = .ok octets →
      snapshotOf machine octets = .ok snapshot →
        ∃ walk digest, snapshot.page.LastFirst walk ∧
          walk.Perm snapshot.page.elements.values ∧ Archive.digest snapshot = .ok digest ∧
          checking = .ok ⟨if (unknownKinds walk).isEmpty then 0 else 1,
            String.join ((unknownKinds walk).map fun problem => "  " ++ problem.message ++ "\n") ++
              toString snapshot.page.size ++ " elements, fingerprint " ++ digest ++ "\n"⟩ := by
  have hline := @succeeds_iff_of_line file σ access machine preferences state hprints hplain hlevel
    hwidth hholds
  refine ⟨(hline .check false).trans (hline .generate false).symm,
    (hline .check false).trans (hline .generate true).symm, ?_⟩
  intro octets snapshot hdash hread hsnapshot
  obtain ⟨walk, digest, hwalk, hperm, hdigest, hchecking⟩ :=
    @check_eq file σ access machine preferences state octets snapshot hlevel hdash
      ⟨hread, hplain octets hread⟩ hsnapshot
  refine ⟨walk, digest, hwalk, hperm, hdigest, hchecking.trans ?_⟩
  rw [settle_of_printed fun piece _ => hprints piece, findings, String.join_append]
  simp [String.append_assoc]

end Runs

/-- A container whose two children are of kinds that no catalog has. -/
def strangers : Page :=
  { elements := .ofList [
      ("a", ⟨"a", "container", .empty, .empty, ["b", "c"], none⟩),
      ("b", ⟨"b", "x", .empty, .empty, [], some "a"⟩),
      ("c", ⟨"c", "y", .empty, .empty, [], some "a"⟩)]
    root := some "a" }

theorem lastFirst_strangers :
    strangers.LastFirst [
      ⟨"a", "container", .empty, .empty, ["b", "c"], none⟩,
      ⟨"c", "y", .empty, .empty, [], some "a"⟩, ⟨"b", "x", .empty, .empty, [], some "a"⟩] := by
  refine ⟨.node ⟨"a", "container", .empty, .empty, ["b", "c"], none⟩ [
    .node ⟨"b", "x", .empty, .empty, [], some "a"⟩ [],
    .node ⟨"c", "y", .empty, .empty, [], some "a"⟩ []], ?_, rfl, rfl⟩
  exact ⟨by decide, rfl, ⟨by decide, rfl, trivial⟩, ⟨by decide, rfl, trivial⟩, trivial⟩

/-- Their file. -/
def strangersFile : Files :=
  .ofList [("page.json", Text.Utf8.encode ("\x7b\"root\":\"a\",\"elements\":\x7b" ++
    "\"a\":\x7b\"kind\":\"container\",\"children\":[\"b\",\"c\"]\x7d," ++
    "\"b\":\x7b\"kind\":\"x\",\"parent\":\"a\"\x7d," ++
    "\"c\":\x7b\"kind\":\"y\",\"parent\":\"a\"\x7d\x7d\x7d"))]

theorem reads_of_any {files : Files} {file : String} {check : List UInt8 → Bool}
    (h : (files.read (Path.ofText file)).toOption.any (fun octets =>
      !isStray octets && check octets) = true) :
    ∃ octets, Reads Files.access files file octets ∧ check octets = true := by
  obtain ⟨octets, hread, hboth⟩ := exists_of_any h
  obtain ⟨hplain, hcheck⟩ := Bool.and_eq_true_iff.1 hboth
  exact ⟨octets, ⟨hread, by simpa using hplain⟩, hcheck⟩

/-- A file is read, and what is read is a given snapshot. -/
theorem reads_document {machine : Machine} {files : Files} {file : String} {snapshot : Snapshot}
    (h : (files.read (Path.ofText file)).toOption.any (fun octets =>
      !isStray octets && decide ((snapshotOf machine octets).toOption = some snapshot)) = true) :
    ∃ octets, Reads Files.access files file octets ∧ snapshotOf machine octets = .ok snapshot := by
  obtain ⟨octets, hread, hdocument⟩ := reads_of_any h
  refine ⟨octets, hread, ?_⟩
  cases hsnapshot : snapshotOf machine octets with
  | error trouble => simp [hsnapshot, Except.toOption] at hdocument
  | ok => simpa [hsnapshot, Except.toOption] using hdocument

/-- The children are told, the last one first, and nothing is compiled. -/
theorem check_agrees_with_generate_strangers :
    (∃ digest, (run {} strangersFile ["check", "page.json"]).1 =
      .ok ⟨1, "  'c' has unknown kind 'y'\n  'b' has unknown kind 'x'\n3 elements, fingerprint " ++
        digest ++ "\n"⟩) ∧
    ¬ Succeeds (run {} strangersFile ["generate", "page.json"]).1 ∧
    ¬ Succeeds (run {} strangersFile ["generate", "page.json", "--markup"]).1 := by
  obtain ⟨octets, hread, hsnapshot⟩ :=
    @reads_document .unlimited strangersFile "page.json" { page := strangers } (by decide +kernel)
  have hplain (given : List UInt8)
      (h : (Files.access.read (Path.ofText "page.json") strangersFile).1 = .ok given) :
      isStray given = false := by
    cases Except.ok.inj (hread.read.symm.trans h)
    exact hread.plain
  obtain ⟨hcode, hmarkup, hchecked⟩ := @check_agrees_with_generate _ .unlimited {} Files.access
    (fun _ => rfl) rfl (by decide) rfl "page.json" strangersFile hplain
  obtain ⟨walk, digest, hwalk, -, -, hending⟩ := hchecked octets _ (by simp) hread.read
    hsnapshot
  have hunknown : unknownKinds walk = [.unknownKind "c" "y", .unknownKind "b" "x"] := by
    rw [hwalk.unique lastFirst_strangers]
    decide
  have hsize : strangers.size = 3 := by decide
  rw [hunknown, hsize] at hending
  have hnot : ¬ Succeeds (run {} strangersFile ["check", "page.json"]).1 := by
    rintro ⟨output, h⟩
    cases hending.symm.trans h
  exact ⟨⟨digest, hending⟩, fun h => hnot (hcode.2 h), fun h => hnot (hmarkup.2 h)⟩

/-! ### Where not everything can be printed -/

/-- A machine that prints ASCII only. -/
def asciiMachine : Machine :=
  { Machine.unlimited with
    console := fun text =>
      if text.toList.all fun c => decide (c.toNat < 128) then none
      else some "ordinal not in range(128)" }

theorem console_asciiMachine {text : String} (h : ∀ c ∈ text.toList, c.toNat < 128) :
    asciiMachine.console text = none :=
  if_pos (List.all_eq_true.2 fun c hc => decide_eq_true (h c hc))

theorem toNat_of_all {text : String}
    (h : (text.toList.all fun c => decide (c.toNat < 128)) = true) :
    ∀ c ∈ text.toList, c.toNat < 128 :=
  fun c hc => of_decide_eq_true (List.all_eq_true.1 h c hc)

theorem toNat_of_mem_hexNumeral {c : Char} {width n : Nat} (h : c ∈ Text.hexNumeral width n) :
    c.toNat < 128 := by
  have hdigit : ∀ m : Fin 16, (Text.hexDigit m.val).toNat < 128 := by decide
  induction width generalizing n with
  | zero => cases h
  | succ width ih =>
    rw [Text.hexNumeral, List.mem_append, List.mem_singleton] at h
    rcases h with h | rfl
    · exact ih h
    · exact hdigit ⟨n % 16, Nat.mod_lt _ (by decide)⟩

theorem toNat_of_mem_digest {snapshot : Snapshot} {digest : String} {c : Char}
    (h : Archive.digest snapshot = .ok digest) (hc : c ∈ digest.toList) : c.toNat < 128 := by
  obtain ⟨json, -, rfl⟩ := exists_of_map h
  rw [String.toList_ofList] at hc
  obtain ⟨word, -, hdigits⟩ := List.mem_flatMap.1 (List.mem_of_mem_take hc)
  exact toNat_of_mem_hexNumeral hdigits

/-- A text with a title that is not ASCII. -/
def accented : Page :=
  { elements := .ofList [("a", ⟨"a", "text", .ofList [("title", .str "é")], .empty, [], none⟩)]
    root := some "a" }

/-- Its file. -/
def accentedFile : Files :=
  .ofList [("page.json", Text.Utf8.encode ("\x7b\"root\":\"a\",\"elements\":\x7b" ++
    "\"a\":\x7b\"kind\":\"text\",\"props\":\x7b\"title\":\"é\"\x7d\x7d\x7d\x7d"))]

/-- One element of an unknown kind, the name of which looks like the end of one problem and the
beginning of another. -/
def forged : Page :=
  { elements := .ofList [("a", ⟨"a", "x'\n  'b' has unknown kind 'y", .empty, .empty, [], none⟩)]
    root := some "a" }

/-- Its file. -/
def forgedFile : Files :=
  .ofList [("page.json", Text.Utf8.encode ("\x7b\"root\":\"a\",\"elements\":\x7b" ++
    "\"a\":\x7b\"kind\":\"x'\\n  'b' has unknown kind 'y\"\x7d\x7d\x7d"))]

theorem check_forged : ∃ digest, (run {} forgedFile ["check", "page.json"]).1 =
    .ok ⟨1, "  'a' has unknown kind 'x'\n  'b' has unknown kind 'y'\n1 elements, fingerprint " ++
      digest ++ "\n"⟩ := by
  obtain ⟨octets, hread, hsnapshot⟩ :=
    @reads_document .unlimited forgedFile "page.json" { page := forged } (by decide +kernel)
  obtain ⟨walk, digest, hwalk, -, -, hchecking⟩ := @check_eq "page.json" _ Files.access
    .unlimited {} forgedFile octets _ rfl (by simp) hread hsnapshot
  have hforged : forged.LastFirst
      [⟨"a", "x'\n  'b' has unknown kind 'y", .empty, .empty, [], none⟩] :=
    ⟨.node _ [], ⟨by decide, rfl, trivial⟩, rfl, rfl⟩
  have hunknown : unknownKinds walk = [.unknownKind "a" "x'\n  'b' has unknown kind 'y"] := by
    rw [hwalk.unique hforged]
    decide
  rw [settle_of_printed fun _ _ => rfl, hunknown] at hchecking
  exact ⟨digest, hchecking⟩

/-- What is found of a single element that is in order is ASCII, whatever the document says. -/
theorem console_findings {snapshot : Snapshot} {digest : String}
    (h : Archive.digest snapshot = .ok digest) :
    ∀ piece ∈ (findings [] 1 digest).pieces, asciiMachine.console piece = none := by
  have hahead : ∀ c ∈ ("1" ++ " elements, fingerprint ").toList, c.toNat < 128 :=
    toNat_of_all rfl
  have hbehind : ∀ c ∈ "\n".toList, c.toNat < 128 := toNat_of_all rfl
  have hline : ∀ c ∈ ("1" ++ " elements, fingerprint " ++ digest ++ "\n").toList,
      c.toNat < 128 := by
    rw [String.toList_append, String.toList_append, List.forall_mem_append, List.forall_mem_append]
    exact ⟨⟨hahead, fun c => toNat_of_mem_digest h⟩, hbehind⟩
  exact List.forall_mem_singleton.2 (console_asciiMachine hline)

theorem reads_accented : ∃ octets, Reads Files.access accentedFile "page.json" octets ∧
    snapshotOf asciiMachine octets = .ok { page := accented } :=
  reads_document (by decide +kernel)

theorem check_accented :
    Succeeds (runWith Files.access asciiMachine {} ["check", "page.json"] accentedFile).1 := by
  obtain ⟨octets, hread, hsnapshot⟩ := reads_accented
  obtain ⟨walk, digest, -, hperm, hdigest, hchecking⟩ := @check_eq "page.json" _ Files.access
    asciiMachine {} accentedFile octets _ rfl (by simp) hread hsnapshot
  have hkinds : accented.KindsKnown .builtIn := by
    intro id e he
    cases List.mem_singleton.1 ((OrderedMap.mem_entries_iff _ _ _).2 he)
    decide
  have hnone := (isEmpty_unknownKinds_iff (valid_of_snapshotOf hsnapshot).1.keyed hperm).2 hkinds
  rw [List.isEmpty_iff.1 hnone] at hchecking
  exact ⟨_, hchecking.trans (settle_of_printed (console_findings hdigest))⟩

theorem generate_accented :
    ¬ Succeeds (runWith Files.access asciiMachine {} ["generate", "page.json", "--markup"]
      accentedFile).1 := by
  obtain ⟨octets, hread, hsnapshot⟩ := reads_accented
  let args : Args :=
    ⟨some .generate, some "page.json", none, none, none, none, true, true, false, false⟩
  have hcode : codeOf true { page := accented } (optionsOf {} args) =
      .ok "<Text title=\"é\" />\n" := by
    decide +kernel
  have hwidth : exceeds asciiMachine true { page := accented } (optionsOf {} args) ≠ true := by
    decide
  have hcompile : compile asciiMachine {} args octets = .ok "<Text title=\"é\" />\n" := by
    rw [compile, if_neg (Bool.eq_false_iff.1 hread.plain), hsnapshot, ok_bind]
    dsimp only
    rw [if_neg hwidth, hcode]
    rfl
  have hgenerating : (runWith Files.access asciiMachine {} ["generate", "page.json", "--markup"]
      accentedFile).1 = asciiMachine.settle (.ok ⟨0, ["<Text title=\"é\" />\n"]⟩) := by
    rw [← runGenerate_of_code hread hcompile rfl]
    exact runWith_of_runs Files.access (Args.parse_line .generate true (by simp)) rfl
      ⟨rfl, rfl, rfl, rfl⟩ accentedFile
  have hsettle : asciiMachine.settle (.ok ⟨0, ["<Text title=\"é\" />\n"]⟩) =
      .ok ⟨1, errorLine "ordinal not in range(128)"⟩ :=
    rfl
  rw [hgenerating, hsettle]
  rintro ⟨output, ⟨⟩⟩

/-- Two problems are printed of a page with one element; and a document that is in order cannot be
compiled where its title cannot be printed. -/
theorem check_agrees_with_generate_forged :
    (∃ digest, (run {} forgedFile ["check", "page.json"]).1 =
      .ok ⟨1, "  'a' has unknown kind 'x'\n  'b' has unknown kind 'y'\n1 elements, fingerprint " ++
        digest ++ "\n"⟩) ∧
    Succeeds (runWith Files.access asciiMachine {} ["check", "page.json"] accentedFile).1 ∧
    ¬ Succeeds
      (runWith Files.access asciiMachine {} ["generate", "page.json", "--markup"] accentedFile).1 :=
  ⟨check_forged, check_accented, generate_accented⟩

end PageBuilder.CommandLine
