import PageBuilder.Proofs.CommandLine.Files
import PageBuilder.Proofs.CommandLine.Groups

/-!
# What becomes of files

A command line writes a file only as the last thing it does, after everything that can go wrong has
been looked at (`Delivery`).  So if writes are atomic a run that does not succeed leaves the files
as they were, and one that succeeds and was told where its output goes has put there what it would
have printed otherwise, and has changed nothing else.
-/

namespace PageBuilder.CommandLine

open Results

variable {σ Place : Type} {access : FileAccess (StateM σ)}
  {content : σ → Place → Option (List UInt8)} {machine : Machine} {preferences : Preferences}
  {args : Args} {argv : List String} {file : String} {state : σ}

/-! ## Delivering code -/

/-- How an attempt can end to compile a file and deliver its code. -/
inductive Delivery (access : FileAccess (StateM σ)) (machine : Machine) (preferences : Preferences)
    (args : Args) (file : String) (state : σ) : Except Trouble Report × σ → Prop
  | failed (trouble : Trouble) :
      Delivery access machine preferences args file state (.error trouble, state)
  | printed {octets : List UInt8} {code : String}
      (hread : (access.read (Path.ofText file) state).1 = .ok octets)
      (hcompile : compile machine preferences args octets = .ok code)
      (hout : args.out.getD "" = "") :
      Delivery access machine preferences args file state (.ok ⟨0, [code]⟩, state)
  | written {octets : List UInt8} {code out : String}
      (hread : (access.read (Path.ofText file) state).1 = .ok octets)
      (hcompile : compile machine preferences args octets = .ok code) (hout : args.out = some out)
      (hwrite : (access.write (Path.ofText out) (Text.Utf8.encode code) state).1 = .ok ()) :
      Delivery access machine preferences args file state
        (.ok ⟨0, []⟩, (access.write (Path.ofText out) (Text.Utf8.encode code) state).2)

/-- What a command that compiles does with files, case by case. -/
theorem delivery (h : access.Atomic content) (machine : Machine) (preferences : Preferences)
    (args : Args) (file : String) (state : σ) :
    Delivery access machine preferences args file state
      (runGenerate access machine preferences args file state) := by
  rw [runGenerate, bind_eq (h.read_eq _ _)]
  cases hread : (access.read (Path.ofText file) state).1 with
  | error unread => exact .failed _
  | ok octets =>
    dsimp only
    cases hcompile : compile machine preferences args octets with
    | error trouble => exact .failed trouble
    | ok code =>
      cases hout : args.out with
      | none =>
        exact .printed hread hcompile (by rw [hout]; rfl)
      | some out =>
        dsimp only
        split
        case isTrue hempty =>
          exact .printed hread hcompile (by simpa [hout, String.isEmpty_iff] using hempty)
        case isFalse =>
          have hpair : access.write (Path.ofText out) (Text.Utf8.encode code) state =
              ((access.write (Path.ofText out) (Text.Utf8.encode code) state).1,
                (access.write (Path.ofText out) (Text.Utf8.encode code) state).2) := rfl
          rw [bind_eq hpair]
          cases hwrite : (access.write (Path.ofText out) (Text.Utf8.encode code) state).1 with
          -- A write that fails leaves the files as they were; this is where it is used that writes
          -- are atomic.
          | error unwritten =>
            rw [h.write_fails hwrite]
            exact .failed _
          | ok => exact .written hread hcompile hout hwrite

/-- Code for which no file is named is reported. -/
theorem runGenerate_printed (h : access.Atomic content) {octets : List UInt8} {code : String}
    (hread : (access.read (Path.ofText file) state).1 = .ok octets)
    (hcompile : compile machine preferences args octets = .ok code) :
    runGenerate access machine preferences { args with out := none } file state =
      (.ok ⟨0, [code]⟩, state) := by
  have hsame : compile machine preferences { args with out := none } octets = .ok code := hcompile
  rw [runGenerate, bind_eq (h.read_eq _ _), hread]
  simp only [hsame]
  rfl

/-- A check changes no files. -/
theorem runCheck_keeps (h : access.Atomic content) :
    (runCheck access machine file state).2 = state := by
  rw [runCheck, bind_eq (h.read_eq _ _)]
  cases (access.read (Path.ofText file) state).1 <;> rfl

/-! ## Whole runs -/

/-- A run ends with what becomes of its command, and leaves the files as the command leaves them. -/
theorem runWith_eq_of_runs (access : FileAccess (StateM σ)) {command : Command}
    (hparse : Args.parse argv = .ok args) (hlevel : setUpLogging machine preferences = .ok ())
    (hruns : args.Runs command file) (state : σ) :
    runWith access machine preferences argv state =
      (machine.settle (carryOut access machine preferences args command file state).1,
        (carryOut access machine preferences args command file state).2) := by
  rw [runWith_of_parse access hparse hlevel, perform_of_runs access machine preferences hruns]
  rfl

/-- A run changes files only to write code, and then it succeeds. -/
theorem runWith_keeps (h : access.Atomic content)
    (hnot : ¬ Succeeds (runWith access machine preferences argv state).1) :
    (runWith access machine preferences argv state).2 = state := by
  cases hparse : Args.parse argv with
  | error fault =>
    rw [runWith, hparse]
    cases fault <;> rfl
  | ok args =>
  cases hlevel : setUpLogging machine preferences with
  | error failure =>
    rw [runWith, hparse]
    simp only [hlevel]
    rfl
  | ok =>
  rcases perform_cases access machine preferences args with
    ⟨command, file, hruns⟩ | ⟨status, answer, -, -, hperform⟩
  · rw [runWith_eq_of_runs access hparse hlevel hruns] at hnot ⊢
    cases command with
    | check => exact runCheck_keeps h
    | generate =>
      have hdelivery := delivery h machine preferences args file state
      rw [carryOut] at hnot ⊢
      generalize runGenerate access machine preferences args file state = ending
        at hnot hdelivery ⊢
      cases hdelivery with
      | failed | printed => rfl
      | written => exact absurd ⟨"", rfl⟩ hnot
  · rw [runWith_of_parse access hparse hlevel, hperform]
    rfl

/-- What becomes of the files of a run: nothing if it does not succeed, and what was asked for and
nothing else if it is to write code. -/
structure AllOrNothing (access : FileAccess (StateM σ))
    (content : σ → Place → Option (List UInt8)) (machine : Machine) (preferences : Preferences)
    (argv : List String) (state : σ) : Prop where
  failed : ¬ Succeeds (runWith access machine preferences argv state).1 →
    (runWith access machine preferences argv state).2 = state
  /-- What is written is what there is to print when no file for it is named. -/
  written : ∀ {args : Args} {out : String}, Args.parse argv = .ok args →
    args.command = some .generate → args.help = false → args.version = false →
    args.out = some out → out ≠ "" →
    Succeeds (runWith access machine preferences argv state).1 →
    let after := (runWith access machine preferences argv state).2
    let printing := runWith access machine preferences (Args.without "--out" argv) state
    (runWith access machine preferences argv state).1 = .ok ⟨0, ""⟩ ∧
    ∃ text, printing = (machine.settle (.ok ⟨0, [text]⟩), state) ∧
      (machine.console text = none → printing = (.ok ⟨0, text⟩, state)) ∧
      (access.read (Path.ofText out) after).1 = .ok (Text.Utf8.encode text) ∧
      ∃ place, content after place = some (Text.Utf8.encode text) ∧
        ∀ other, other ≠ place → content after other = content state other

/-- A run that succeeds has set up logging. -/
theorem setUpLogging_of_succeeds (hparse : Args.parse argv = .ok args)
    (hsucceeds : Succeeds (runWith access machine preferences argv state).1) :
    setUpLogging machine preferences = .ok () := by
  cases hlevel : setUpLogging machine preferences with
  | ok => rfl
  | error failure =>
    obtain ⟨output, h⟩ := hsucceeds
    cases (runWith_of_level_error access hparse hlevel state).symm.trans h

/-- A run that succeeds and is to compile something names a file. -/
theorem exists_runs (hparse : Args.parse argv = .ok args)
    (hcommand : args.command = some .generate) (hhelp : args.help = false)
    (hversion : args.version = false)
    (hsucceeds : Succeeds (runWith access machine preferences argv state).1) :
    ∃ file, args.Runs .generate file := by
  cases hfile : args.file with
  | some file => exact ⟨file, hhelp, hversion, hcommand, hfile⟩
  | none =>
    have hlevel := setUpLogging_of_succeeds hparse hsucceeds
    obtain ⟨answer, hperform⟩ := perform_of_unfiled access machine preferences hfile
    rw [runWith_of_parse access hparse hlevel, hperform, hhelp, hversion] at hsucceeds
    obtain ⟨output, h⟩ := hsucceeds
    rcases say_cases machine 1 [answer] with ⟨other, hsay⟩ | ⟨piece, words, -, -, hsay⟩ <;>
      cases hsay.symm.trans h

theorem allOrNothing_of_atomic (h : access.Atomic content) (machine : Machine)
    (preferences : Preferences) (argv : List String) (state : σ) :
    AllOrNothing access content machine preferences argv state where
  failed := runWith_keeps h
  written {args out} hparse hcommand hhelp hversion hout hne hsucceeds := by
    have hlevel := setUpLogging_of_succeeds hparse hsucceeds
    obtain ⟨file, hruns⟩ := exists_runs hparse hcommand hhelp hversion hsucceeds
    have hprints : ({ args with out := none } : Args).Runs .generate file :=
      ⟨hhelp, hversion, hcommand, hruns.file⟩
    rw [runWith_eq_of_runs access hparse hlevel hruns] at hsucceeds ⊢
    rw [runWith_eq_of_runs access (Args.parse_without_out hparse) hlevel hprints]
    have hdelivery := delivery h machine preferences args file state
    rw [carryOut] at hsucceeds ⊢
    generalize runGenerate access machine preferences args file state = ending
      at hsucceeds hdelivery ⊢
    cases hdelivery with
    | failed trouble => exact absurd hsucceeds (not_succeeds_of_trouble trouble)
    | printed _ _ hnone =>
      rw [hout] at hnone
      exact absurd hnone hne
    | @written octets code target hread hcompile htarget hwrite =>
      obtain rfl : target = out := Option.some.inj (htarget.symm.trans hout)
      obtain ⟨hholds, place, hplace, hothers⟩ := h.write_holds hwrite
      have hprinting : carryOut access machine preferences { args with out := none } .generate file
          state = (.ok ⟨0, [code]⟩, state) := runGenerate_printed h hread hcompile
      rw [hprinting]
      refine ⟨rfl, code, rfl, fun hconsole => ?_, hholds, place, hplace, hothers⟩
      have hall : ∀ piece ∈ [code], machine.console piece = none :=
        List.forall_mem_singleton.2 hconsole
      simp [@settle_of_printed machine ⟨0, [code]⟩ hall]

/-- Output files are written all or nothing.  A run that does not succeed changes no file.  One that
compiles something and is told a file for it prints nothing, puts into the file what it would have
printed, and changes no other file, also if it is the one that was compiled.  This is so for files
that are a value, and in every file system with atomic writes, whatever the machine can do. -/
theorem output_all_or_nothing (machine : Machine) (preferences : Preferences)
    (argv : List String) :
    (∀ files, AllOrNothing Files.access OrderedMap.get? machine preferences argv files) ∧
    ∀ {σ Place : Type} {access : FileAccess (StateM σ)}
      {content : σ → Place → Option (List UInt8)}, access.Atomic content →
      ∀ state, AllOrNothing access content machine preferences argv state :=
  ⟨allOrNothing_of_atomic Files.atomic_access machine preferences argv,
    fun h => allOrNothing_of_atomic h machine preferences argv⟩

/-- The file of an empty page is compiled into itself by another path, and left alone if lines are
to be indented further than any can be. -/
theorem output_all_or_nothing_itself :
    let argv := ["--out", "other.tsx", "generate", "page.json", "--out", "./page.json"]
    let after := (run {} emptyFile argv).2
    (run {} emptyFile argv).1 = .ok ⟨0, ""⟩ ∧
    (∃ text, run {} emptyFile ["generate", "page.json"] = (.ok ⟨0, text⟩, emptyFile) ∧
      after.read (Path.ofText "page.json") = .ok (Text.Utf8.encode text)) ∧
    (run {} emptyFile (argv ++ ["--indent", "99999999999999999999"])).2 = emptyFile := by
  intro argv after
  have hparse : Args.parse argv = .ok
      { command := some .generate, file := some "page.json", out := some "./page.json" } := by
    decide +kernel
  have hparse' : Args.parse (argv ++ ["--indent", "99999999999999999999"]) = .ok
      { command := some .generate, file := some "page.json", out := some "./page.json",
        indent := some 99999999999999999999 } := by
    decide +kernel
  have hsucceeds : Succeeds (run {} emptyFile argv).1 := ⟨"", by decide +kernel⟩
  have hwide : ¬ Succeeds (run {} emptyFile (argv ++ ["--indent", "99999999999999999999"])).1 := by
    rintro ⟨output, hrun⟩
    have hstops : (run {} emptyFile (argv ++ ["--indent", "99999999999999999999"])).1 =
        .error .indentTooWide := by
      decide +kernel
    cases hstops.symm.trans hrun
  obtain ⟨hsilent, text, -, hprinted, hread, -⟩ :=
    ((output_all_or_nothing .unlimited {} argv).1 emptyFile).written hparse rfl rfl rfl rfl
      (by decide) hsucceeds
  have hwithout : Args.without "--out" argv = ["generate", "page.json"] := by decide +kernel
  rw [hwithout] at hprinted
  exact ⟨hsilent, ⟨text, hprinted rfl, hread⟩,
    ((output_all_or_nothing .unlimited {} _).1 emptyFile).failed hwide⟩

end PageBuilder.CommandLine
