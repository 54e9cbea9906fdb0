import PageBuilder.Proofs.CommandLine.Compile
import PageBuilder.Proofs.Number.Limit

/-!
# How a command line ends

Whatever the arguments are and whatever the files hold, a command line ends with status 0 or 1,
unless something happens that is passed on (`Escapes`).  While the arguments are looked at this is a
width in digits that cannot be read (`parse_eq_numeral_iff`): digits that are no decimal digits,
such as a superscript two, are taken for a number and then are none, and there can be too many of
them.  Then it is a log level that is a name of something else; and while a command is carried out,
a document that is nested too deeply, or code with lines that cannot be indented as far as asked
for. Everything else that goes wrong is printed in one line with status 1.  If not even that line
can be printed, that is passed on as well.

Files are read and written through an arbitrary `FileAccess` on an arbitrary state, and nothing is
supposed about the `Machine` either.  Left out are files in which half a surrogate pair stands alone
(`Plain`), as no text of a page holds that.
-/

namespace PageBuilder.CommandLine

open Results

variable {argv before after rest : List String} {args final : Args} {text : String}
  {fault : Number.NumeralFault}

/-! ## Arguments -/

namespace Args

/-- An option with a value takes the argument behind it, whatever that looks like. -/
theorem takeAll_valued {option : String} (h : valued.contains option = true) (value : String) :
    takeAll args (option :: value :: rest) =
      args.setValue option value >>= fun args => takeAll args rest := by
  rw [takeAll, if_pos h]
  cases args.setValue option value <;> rfl

/-- Any other argument is taken by itself. -/
theorem takeAll_alone {arg : String} (h : valued.contains arg = false) :
    takeAll args (arg :: rest) = args.takeAlone arg >>= fun args => takeAll args rest := by
  cases rest with
  | nil =>
    rw [takeAll, h]
    cases args.takeAlone arg <;> rfl
  | cons next rest =>
    rw [takeAll, h]
    cases args.takeAlone arg <;> rfl

/-- Arguments are taken one after the other. -/
theorem takeAll_append (h : takeAll args before = .ok final) (rest : List String) :
    takeAll args (before ++ rest) = takeAll final rest := by
  fun_induction takeAll args before with
  | case1 args =>
    cases h
    rfl
  | case2 args arg hvalued => cases h
  | case3 args arg hvalued =>
    rw [List.singleton_append, takeAll_alone (by simpa using hvalued), h]
    rfl
  | case4 args arg next before hvalued fault hset => cases h
  | case5 args arg next before hvalued taken hset ih =>
    rw [List.cons_append, List.cons_append, takeAll_valued hvalued, hset]
    exact ih h
  | case6 args arg next before hvalued fault htake => cases h
  | case7 args arg next before hvalued taken htake ih =>
    rw [List.cons_append, takeAll_alone (by simpa using hvalued), htake]
    exact ih h

/-! ### Numerals -/

/-- The one value that has to be read is a width, and it is looked at before: all its characters are
digits of some kind. -/
theorem indentOf_eq_numeral_iff {value : String} :
    indentOf value = .error (.numeral text fault) ↔
      value = text ∧ Text.isDigitLikeText text = true ∧ Number.readInteger text = .error fault := by
  unfold indentOf
  by_cases hlike : Text.isDigitLikeText value = true
  · cases hread : Number.readInteger value with
    | error cause =>
      simp only [hlike, if_true, Except.error.injEq, UsageFault.numeral.injEq]
      constructor
      · rintro ⟨rfl, rfl⟩
        exact ⟨rfl, hlike, hread⟩
      · rintro ⟨rfl, -, heq⟩
        exact ⟨rfl, Except.error.inj (hread.symm.trans heq)⟩
    | ok n =>
      have hnot : ¬ (value = text ∧ Text.isDigitLikeText text = true ∧
          Number.readInteger text = .error fault) := by
        rintro ⟨rfl, -, heq⟩
        cases hread.symm.trans heq
      simp only [hlike, if_true, hnot, iff_false]
      split <;> simp
  · simp only [hlike, Bool.false_eq_true, if_false, Except.error.injEq, reduceCtorEq, false_iff,
      not_and]
    rintro rfl h
    exact absurd h hlike

/-- No other option has a value that may fail to be read. -/
theorem setValue_eq_numeral_iff {option value : String} (hvalued : valued.contains option = true) :
    args.setValue option value = .error (.numeral text fault) ↔
      option = "--indent" ∧ value = text ∧ Text.isDigitLikeText text = true ∧
        Number.readInteger text = .error fault := by
  rw [← indentOf_eq_numeral_iff]
  have hmem : option ∈ valued := List.contains_iff_mem.1 hvalued
  simp only [valued, List.mem_cons, List.not_mem_nil, or_false] at hmem
  rcases hmem with rfl | rfl | rfl | rfl
  · simp [setValue]
  · simp [setValue]
  · rw [setValue]
    cases indentOf value <;> simp
  · simp [setValue]

theorem takeAlone_ne_numeral {arg : String} :
    args.takeAlone arg ≠ .error (.numeral text fault) := by
  have hword : ∀ word, args.takeWord word ≠ .error (.numeral text fault) := by
    intro word
    unfold takeWord
    split
    · simp
    · split <;> simp
  unfold takeAlone
  split
  any_goals simp
  split
  · exact hword arg
  · split
    · simp
    · exact hword arg

/-- The arguments before the width have been taken without a fault, or that one would have come
first. -/
theorem takeAll_eq_numeral_iff :
    takeAll args argv = .error (.numeral text fault) ↔
      ∃ before after final, argv = before ++ "--indent" :: text :: after ∧
        takeAll args before = .ok final ∧ Text.isDigitLikeText text = true ∧
        Number.readInteger text = .error fault := by
  constructor
  · intro h
    fun_induction takeAll args argv with
    | case1 args => cases h
    | case2 args arg hvalued => cases h
    | case3 args arg hvalued => exact absurd h takeAlone_ne_numeral
    | case4 args arg next rest hvalued fault hset =>
      cases h
      obtain ⟨rfl, rfl, hlike, hnone⟩ := (setValue_eq_numeral_iff hvalued).1 hset
      exact ⟨[], rest, args, rfl, rfl, hlike, hnone⟩
    | case5 args arg next rest hvalued taken hset ih =>
      obtain ⟨before, after, final, rfl, hbefore, htext⟩ := ih h
      refine ⟨arg :: next :: before, after, final, rfl, ?_, htext⟩
      rw [takeAll_valued hvalued, hset]
      exact hbefore
    | case6 args arg next rest hvalued fault htake =>
      cases h
      exact absurd htake takeAlone_ne_numeral
    | case7 args arg next rest hvalued taken htake ih =>
      obtain ⟨before, after, final, heq, hbefore, htext⟩ := ih h
      refine ⟨arg :: before, after, final, by rw [heq]; rfl, ?_, htext⟩
      rw [takeAll_alone (by simpa using hvalued), htake]
      exact hbefore
  · rintro ⟨before, after, final, rfl, hbefore, htext⟩
    have hvalued : valued.contains "--indent" = true := by decide
    rw [takeAll_append hbefore, takeAll_valued hvalued,
      (setValue_eq_numeral_iff hvalued).2 ⟨rfl, rfl, htext⟩, error_bind]

/-- A command line is no numeral's fault but where it first says how wide to indent, in digits that
cannot be read. -/
theorem parse_eq_numeral_iff :
    Args.parse argv = .error (.numeral text fault) ↔
      ∃ before after final, argv = before ++ "--indent" :: text :: after ∧
        Args.parse before = .ok final ∧ Text.isDigitLikeText text = true ∧
        Number.readInteger text = .error fault :=
  takeAll_eq_numeral_iff

/-! ### Widths -/

/-- A width that is given is positive. -/
def Positive (args : Args) : Prop :=
  ∀ n, args.indent = some n → 0 < n

/-- A width on the command line is positive. -/
theorem pos_of_indentOf {n : Int} (h : indentOf text = .ok n) : 0 < n := by
  unfold indentOf at h
  split at h
  · split at h
    · cases h
    · split at h
      · cases h
      · cases h
        omega
  · cases h

theorem Positive.setValue (h : args.Positive) {option value : String}
    (hset : args.setValue option value = .ok final) : final.Positive := by
  unfold Args.setValue at hset
  split at hset
  any_goals
    cases hset
    exact h
  obtain ⟨n, hn, rfl⟩ := exists_of_map hset
  rintro m ⟨⟩
  exact pos_of_indentOf hn

theorem Positive.takeAlone (h : args.Positive) {arg : String}
    (htake : args.takeAlone arg = .ok final) : final.Positive := by
  have hword : ∀ {word}, args.takeWord word = .ok final → final.Positive := by
    intro word hword
    unfold takeWord at hword
    split at hword
    · cases hword
    · split at hword
      · cases hword
        exact h
      · cases hword
  unfold Args.takeAlone at htake
  split at htake
  any_goals
    cases htake
    exact h
  split at htake
  · exact hword htake
  · split at htake
    · cases htake
      exact h
    · exact hword htake

theorem Positive.takeAll (h : args.Positive) (htake : takeAll args argv = .ok final) :
    final.Positive := by
  fun_induction Args.takeAll args argv with
  | case1 args =>
    cases htake
    exact h
  | case2 args arg hvalued => cases htake
  | case3 args arg hvalued => exact h.takeAlone htake
  | case4 args arg next rest hvalued fault hset => cases htake
  | case5 args arg next rest hvalued taken hset ih => exact ih (h.setValue hset) htake
  | case6 args arg next rest hvalued fault hone => cases htake
  | case7 args arg next rest hvalued taken hone ih => exact ih (h.takeAlone hone) htake

/-- So are all widths that come of parsing. -/
theorem positive_of_parse (h : Args.parse argv = .ok args) : args.Positive :=
  Positive.takeAll (by rintro n ⟨⟩) h

end Args

/-- And preferences are read so that theirs is positive too. -/
theorem indent_optionsOf_pos (h : args.Positive) (preferences : Preferences) :
    0 < (optionsOf preferences args).indent := by
  show 0 < args.indent.getD (if 0 < preferences.indent then preferences.indent else 2)
  cases hn : args.indent with
  | none =>
    rw [Option.getD_none]
    split <;> omega
  | some n => exact h n hn

/-! ## Printing -/

section Printing

variable {machine : Machine} {pieces : List String} {trouble : Trouble} {failure : Failure}

/-- What a machine has no trouble with is printed in one. -/
theorem print_eq (h : ∀ piece ∈ pieces, machine.console piece = none) :
    machine.print pieces = (String.join pieces, none) := by
  induction pieces with
  | nil => rfl
  | cons piece rest ih =>
    obtain ⟨hpiece, hrest⟩ := List.forall_mem_cons.1 h
    simp only [Machine.print, hpiece, ih hrest, String.join_cons]

/-- Printing goes on to the end, or up to a piece that the console cannot show. -/
theorem print_cases (machine : Machine) (pieces : List String) :
    (∃ output, machine.print pieces = (output, none)) ∨
      ∃ output piece words, piece ∈ pieces ∧ machine.console piece = some words ∧
        machine.print pieces = (output, some words) := by
  induction pieces with
  | nil => exact .inl ⟨"", rfl⟩
  | cons piece rest ih =>
    cases hpiece : machine.console piece with
    | some words =>
      exact .inr ⟨"", piece, words, List.mem_cons_self, hpiece,
        by simp only [Machine.print, hpiece]⟩
    | none =>
      rcases ih with ⟨output, hrest⟩ | ⟨output, stuck, words, hm, hstuck, hrest⟩
      · exact .inl ⟨piece ++ output, by simp only [Machine.print, hpiece, hrest]⟩
      · exact .inr ⟨piece ++ output, stuck, words, List.mem_cons_of_mem _ hm, hstuck, by
          simp only [Machine.print, hpiece, hrest]⟩

/-- Outside of commands nothing catches that. -/
theorem say_cases (machine : Machine) (status : Nat) (pieces : List String) :
    (∃ output, machine.say status pieces = .ok ⟨status, output⟩) ∨
      ∃ piece words, piece ∈ pieces ∧ machine.console piece = some words ∧
        machine.say status pieces = .error (.unprintable words) := by
  rcases print_cases machine pieces with ⟨output, h⟩ | ⟨output, piece, words, hm, hpiece, h⟩
  · exact .inl ⟨output, by simp only [Machine.say, h]⟩
  · exact .inr ⟨piece, words, hm, hpiece, by simp only [Machine.say, h]⟩

/-- An error that is told is printed as one line. -/
theorem tell_cases (machine : Machine) (printed words : String) :
    machine.tell printed words = .ok ⟨1, printed ++ errorLine words⟩ ∨
      ∃ cause, machine.console (errorLine words) = some cause ∧
        machine.tell printed words = .error (.unprintable cause) := by
  cases h : machine.console (errorLine words) with
  | none => exact .inl (by simp only [Machine.tell, h])
  | some cause => exact .inr ⟨cause, rfl, by simp only [Machine.tell, h]⟩

theorem settle_of_told (h : trouble.passedOn? = none) :
    machine.settle (.error trouble) = machine.tell "" trouble.message := by
  simp only [Machine.settle, h]

theorem settle_of_passedOn (h : trouble.passedOn? = some failure) :
    machine.settle (.error trouble) = .error failure := by
  simp only [Machine.settle, h]

/-- What becomes of a command: its report, or an error that is told with status 1, or something that
is passed on. -/
theorem settle_cases (machine : Machine) (result : Except Trouble Report) :
    (∃ report output, result = .ok report ∧ machine.print report.pieces = (output, none) ∧
      machine.settle result = .ok ⟨report.status, output⟩) ∨
    (∃ printed words, machine.settle result = .ok ⟨1, printed ++ errorLine words⟩) ∨
    (∃ trouble failure, result = .error trouble ∧ trouble.passedOn? = some failure ∧
      machine.settle result = .error failure) ∨
    ∃ words cause, machine.console (errorLine words) = some cause ∧
      machine.settle result = .error (.unprintable cause) := by
  -- An error is told, or not even that can be printed.
  have htell (printed words : String) (h : machine.settle result = machine.tell printed words) :
      (∃ printed words, machine.settle result = .ok ⟨1, printed ++ errorLine words⟩) ∨
      (∃ trouble failure, result = .error trouble ∧ trouble.passedOn? = some failure ∧
        machine.settle result = .error failure) ∨
      ∃ words cause, machine.console (errorLine words) = some cause ∧
        machine.settle result = .error (.unprintable cause) := by
    rw [h]
    rcases tell_cases machine printed words with htold | ⟨cause, hcause, htold⟩
    · exact .inl ⟨printed, words, htold⟩
    · exact .inr (.inr ⟨words, cause, hcause, htold⟩)
  cases result with
  | ok report =>
    rcases print_cases machine report.pieces with ⟨output, h⟩ | ⟨output, piece, words, -, -, h⟩
    · exact .inl ⟨report, output, rfl, h, by simp only [Machine.settle, h]⟩
    · exact .inr (htell output words (by simp only [Machine.settle, h]))
  | error trouble =>
    cases h : trouble.passedOn? with
    | none => exact .inr (htell "" trouble.message (settle_of_told h))
    | some failure =>
      exact .inr (.inr (.inl ⟨trouble, failure, rfl, h, settle_of_passedOn h⟩))

end Printing

/-! ## Commands -/

section Commands

variable {σ : Type} {access : FileAccess (StateM σ)} {machine : Machine}
  {preferences : Preferences} {state : σ} {command : Command} {file : String}
  {octets : List UInt8} {snapshot : Snapshot} {failure : Failure} {trouble : Trouble}
  {report : Report}

theorem bind_eq {α β : Type} {x : StateM σ α} {a : α} {after : σ} (h : x state = (a, after))
    (f : α → StateM σ β) : (x >>= f) state = f a after := by
  show StateT.bind x f state = f a after
  unfold StateT.bind
  rw [h]
  rfl

/-- A file can be read, and no half of a surrogate pair stands alone in it. -/
structure Reads (access : FileAccess (StateM σ)) (state : σ) (file : String)
    (octets : List UInt8) : Prop where
  read : (access.read (Path.ofText file) state).1 = .ok octets
  plain : isStray octets = false

theorem exists_of_fst {α : Type} {r : α × σ} {a : α} (h : r.1 = a) : ∃ after, r = (a, after) :=
  ⟨r.2, Prod.ext h rfl⟩

/-- A file that cannot be read is told of. -/
theorem carryOut_of_unread {unread : FileFault}
    (h : (access.read (Path.ofText file) state).1 = .error unread) :
    (carryOut access machine preferences args command file state).1 =
      .error (.file (Path.ofText file) unread) := by
  obtain ⟨after, hread⟩ := exists_of_fst h
  cases command with
  | generate =>
    rw [carryOut, runGenerate, bind_eq hread]
    rfl
  | check =>
    rw [carryOut, runCheck, bind_eq hread]
    rfl

theorem runCheck_eq (h : Reads access state file octets) :
    (runCheck access machine file state).1 = inspect machine octets := by
  obtain ⟨after, hread⟩ := exists_of_fst h.read
  rw [runCheck, bind_eq hread]
  rfl

/-- What stops the compilation stops the command, and no file has been written. -/
theorem runGenerate_of_trouble (h : Reads access state file octets)
    (hcompile : compile machine preferences args octets = .error trouble) :
    (runGenerate access machine preferences args file state).1 = .error trouble := by
  obtain ⟨after, hread⟩ := exists_of_fst h.read
  rw [runGenerate, bind_eq hread]
  simp only [hcompile]
  rfl

/-- Code for which no file is named is printed. -/
theorem runGenerate_of_code {code : String} (h : Reads access state file octets)
    (hcompile : compile machine preferences args octets = .ok code) (hout : args.out = none) :
    (runGenerate access machine preferences args file state).1 = .ok ⟨0, [code]⟩ := by
  obtain ⟨after, hread⟩ := exists_of_fst h.read
  rw [runGenerate, bind_eq hread]
  simp only [hcompile, hout]
  rfl

/-- Code is printed or written, unless the file for it cannot be written. -/
theorem runGenerate_cases_of_code {code : String} (h : Reads access state file octets)
    (hcompile : compile machine preferences args octets = .ok code) :
    (∃ pieces, (runGenerate access machine preferences args file state).1 = .ok ⟨0, pieces⟩) ∨
      ∃ target unwritten, (runGenerate access machine preferences args file state).1 =
        .error (.file target unwritten) := by
  cases hout : args.out with
  | none => exact .inl ⟨[code], runGenerate_of_code h hcompile hout⟩
  | some out =>
    obtain ⟨after, hread⟩ := exists_of_fst h.read
    rw [runGenerate, bind_eq hread]
    simp only [hcompile, hout]
    split
    · exact .inl ⟨[code], rfl⟩
    · rcases hwrite : access.write (Path.ofText out) (Text.Utf8.encode code) after with
        ⟨result, last⟩
      rw [bind_eq hwrite]
      cases result with
      | error unwritten => exact .inr ⟨Path.ofText out, unwritten, rfl⟩
      | ok => exact .inl ⟨[], rfl⟩

/-! ### What commands pass on -/

/-- What a command passes on: the document is nested too deeply, or it could be compiled but for the
indentation of its lines. -/
inductive PassesOn (access : FileAccess (StateM σ)) (machine : Machine) (preferences : Preferences)
    (args : Args) (command : Command) (file : String) (state : σ) : Failure → Prop
  | nested {octets : List UInt8} (hread : Reads access state file octets)
      (hnested : NestedTooDeeply machine octets) :
      PassesOn access machine preferences args command file state .nestedTooDeeply
  | stopped {octets : List UInt8} {snapshot : Snapshot} {failure : Failure}
      (hcommand : command = .generate) (hread : Reads access state file octets)
      (hdocument : snapshotOf machine octets = .ok snapshot)
      (hready : Ready (optionsOf preferences args) args.markup snapshot.page)
      (hstop : stop? machine (optionsOf preferences args) args.markup snapshot.page =
        some failure) :
      PassesOn access machine preferences args command file state failure

/-- What stops the writing of code is no refusal, unless a value has no text because an integer is
too long. -/
theorem passedOn?_of_stop {options : Source.Options} {markup : Bool} {page : Page}
    (hpos : 0 < options.indent) (h : stop? machine options markup page = some failure) :
    (Trouble.failure failure).passedOn? = some failure := by
  rw [stop?, widthFault?_of_pos hpos] at h
  split at h
  · cases h
  · split at h
    · cases h
      rfl
    · split at h <;> cases h
      rfl

/-- What is passed on is what the command comes to. -/
theorem carryOut_of_passesOn (hpos : 0 < (optionsOf preferences args).indent)
    (h : PassesOn access machine preferences args command file state failure) :
    (carryOut access machine preferences args command file state).1 =
        .error (.failure failure) ∧
      (Trouble.failure failure).passedOn? = some failure := by
  cases h with
  | @nested octets hread hnested =>
    refine ⟨?_, rfl⟩
    have hsnapshot := snapshotOf_of_nested hnested
    cases command with
    | generate =>
      exact runGenerate_of_trouble hread (compile_of_unread hread.plain hsnapshot preferences args)
    | check => exact (runCheck_eq hread).trans (inspect_of_unread hread.plain hsnapshot)
  | @stopped octets snapshot failure hcommand hread hdocument hready hstop =>
    obtain ⟨result, hcompile, houtcome⟩ :=
      @compile_of_snapshotOf machine octets snapshot preferences args hpos hread.plain hdocument
    have hresult : result = .error failure := by
      cases houtcome with
      | refused hnot _ => exact absurd hready hnot
      | stopped _ hfound => rw [Option.some.inj (hfound.symm.trans hstop)]
      | written _ hnone => cases hnone.symm.trans hstop
    subst hresult hcommand
    exact ⟨runGenerate_of_trouble hread hcompile, passedOn?_of_stop hpos hstop⟩

/-- A command that is carried out ends with a report, or with a trouble that is told, or with what
is passed on. -/
theorem carryOut_cases (access : FileAccess (StateM σ)) (machine : Machine)
    (preferences : Preferences) (hpos : 0 < (optionsOf preferences args).indent)
    (command : Command) (file : String) (state : σ)
    (hplain : ∀ octets, (access.read (Path.ofText file) state).1 = .ok octets →
      isStray octets = false) :
    (∃ report, (carryOut access machine preferences args command file state).1 = .ok report ∧
      (report.status = 0 ∨ report.status = 1)) ∨
    (∃ trouble, (carryOut access machine preferences args command file state).1 =
      .error trouble ∧ trouble.passedOn? = none) ∨
    ∃ failure, PassesOn access machine preferences args command file state failure := by
  cases hunread : (access.read (Path.ofText file) state).1 with
  | error unread => exact .inr (.inl ⟨_, carryOut_of_unread hunread, rfl⟩)
  | ok octets =>
  have hread : Reads access state file octets := ⟨hunread, hplain octets hunread⟩
  -- Both commands read the document in the same way, and go different ways only after that.
  cases hsnapshot : snapshotOf machine octets with
  | error trouble =>
    rcases trouble_of_snapshotOf hsnapshot with htold | ⟨rfl, hnested⟩
    · refine .inr (.inl ⟨trouble, ?_, htold⟩)
      cases command with
      | generate =>
        exact runGenerate_of_trouble hread
          (compile_of_unread hread.plain hsnapshot preferences args)
      | check => exact (runCheck_eq hread).trans (inspect_of_unread hread.plain hsnapshot)
    · exact .inr (.inr ⟨_, .nested hread hnested⟩)
  | ok snapshot =>
  cases command with
  | check =>
    obtain ⟨digest, -, hinspect⟩ := inspect_of_snapshotOf hread.plain hsnapshot
    refine .inl ⟨_, (runCheck_eq hread).trans hinspect, ?_⟩
    unfold findings
    split
    · exact .inl rfl
    · exact .inr rfl
  | generate =>
    obtain ⟨result, hcompile, houtcome⟩ :=
      @compile_of_snapshotOf machine octets snapshot preferences args hpos hread.plain hsnapshot
    cases houtcome with
    | refused _ hrefusal =>
      exact .inr (.inl ⟨_, runGenerate_of_trouble hread hcompile, if_pos hrefusal⟩)
    | written _ _ =>
      rcases runGenerate_cases_of_code hread hcompile with
        ⟨pieces, hout⟩ | ⟨target, unwritten, hout⟩
      · exact .inl ⟨_, hout, .inl rfl⟩
      · exact .inr (.inl ⟨_, hout, rfl⟩)
    | stopped hready hstop => exact .inr (.inr ⟨_, .stopped rfl hread hsnapshot hready hstop⟩)

/-- A command line asks for a command on a file. -/
structure Args.Runs (args : Args) (command : Command) (file : String) : Prop where
  help : args.help = false
  version : args.version = false
  command : args.command = some command
  file : args.file = some file

theorem perform_of_runs (access : FileAccess (StateM σ)) (machine : Machine)
    (preferences : Preferences) (h : args.Runs command file) :
    perform access machine preferences args =
      machine.settle <$> carryOut access machine preferences args command file := by
  simp only [perform, h.help, h.version, h.command, h.file, Bool.false_eq_true, if_false]

/-- Arguments that ask for no command are answered with help or the version. -/
theorem perform_cases (access : FileAccess (StateM σ)) (machine : Machine)
    (preferences : Preferences) (args : Args) :
    (∃ command file, args.Runs command file) ∨
      ∃ status answer, (status = 0 ∨ status = 1) ∧ (answer = helpText ∨ answer = versionText) ∧
        perform access machine preferences args = pure (machine.say status [answer]) := by
  cases hhelp : args.help with
  | true =>
    simp only [perform, hhelp, if_true]
    exact .inr ⟨0, helpText, .inl rfl, .inl rfl, rfl⟩
  | false =>
  cases hversion : args.version with
  | true =>
    simp only [perform, hhelp, hversion, if_true, Bool.false_eq_true, if_false]
    exact .inr ⟨0, versionText, .inl rfl, .inr rfl, rfl⟩
  | false =>
  cases hcommand : args.command with
  | none =>
    simp only [perform, hhelp, hversion, hcommand, Bool.false_eq_true, if_false]
    exact .inr ⟨1, helpText, .inr rfl, .inl rfl, rfl⟩
  | some command =>
  cases hfile : args.file with
  | none =>
    simp only [perform, hhelp, hversion, hcommand, hfile, Bool.false_eq_true, if_false]
    exact .inr ⟨1, helpText, .inr rfl, .inl rfl, rfl⟩
  | some file => exact .inl ⟨command, file, hhelp, hversion, hcommand, hfile⟩

/-! ## Whole runs -/

/-- The file that a command line names is no text in which half a surrogate pair stands alone. -/
def Plain (access : FileAccess (StateM σ)) (argv : List String) (state : σ) : Prop :=
  ∀ args file octets, Args.parse argv = .ok args → args.file = some file →
    (access.read (Path.ofText file) state).1 = .ok octets → isStray octets = false

/-- What a run does not report but passes on. -/
inductive Escapes (access : FileAccess (StateM σ)) (machine : Machine) (preferences : Preferences)
    (argv : List String) (state : σ) : Failure → Prop
  /-- A width in digits that cannot be read. -/
  | numeral {before after : List String} {taken : Args} {text : String}
      {fault : Number.NumeralFault} (hargv : argv = before ++ "--indent" :: text :: after)
      (hbefore : Args.parse before = .ok taken) (hdigits : Text.isDigitLikeText text = true)
      (hread : Number.readInteger text = .error fault) :
      Escapes access machine preferences argv state (.ofNumeral text fault)
  | logging {args : Args} {failure : Failure} (hparse : Args.parse argv = .ok args)
      (hlevel : setUpLogging machine preferences = .error failure) :
      Escapes access machine preferences argv state failure
  | command {args : Args} {command : Command} {file : String} {failure : Failure}
      (hparse : Args.parse argv = .ok args) (hlevel : setUpLogging machine preferences = .ok ())
      (hruns : args.Runs command file)
      (hpasses : PassesOn access machine preferences args command file state failure) :
      Escapes access machine preferences argv state failure

/-- What is printed outside of commands, and when one fails. -/
inductive Notice (argv : List String) : String → Prop
  | usage {fault : UsageFault} {piece : String} (hparse : Args.parse argv = .error fault)
      (hpiece : piece ∈ fault.pieces) : Notice argv piece
  | help : Notice argv helpText
  | version : Notice argv versionText
  | error (words : String) : Notice argv (errorLine words)

/-- Arguments are parsed outside of what catches errors. -/
theorem runWith_of_numeral (access : FileAccess (StateM σ)) (machine : Machine)
    (preferences : Preferences) (h : Args.parse argv = .error (.numeral text fault)) (state : σ) :
    (runWith access machine preferences argv state).1 = .error (.ofNumeral text fault) := by
  rw [runWith, h]
  rfl

/-- Any other fault of the arguments is told with the usage. -/
theorem runWith_of_usage (access : FileAccess (StateM σ)) (machine : Machine)
    (preferences : Preferences) {usage : UsageFault} (h : Args.parse argv = .error usage)
    (hne : ∀ text fault, usage ≠ .numeral text fault) (state : σ) :
    (runWith access machine preferences argv state).1 = machine.say 1 usage.pieces := by
  rw [runWith, h]
  cases usage with
  | numeral text fault => exact absurd rfl (hne text fault)
  | valueMissing | indent | unknownOption | unknownCommand => rfl

/-- Logging is set up outside of it as well. -/
theorem runWith_of_level_error (access : FileAccess (StateM σ)) (h : Args.parse argv = .ok args)
    (hlevel : setUpLogging machine preferences = .error failure) (state : σ) :
    (runWith access machine preferences argv state).1 = .error failure := by
  rw [runWith, h]
  simp only [hlevel]
  rfl

theorem runWith_of_parse (access : FileAccess (StateM σ)) (h : Args.parse argv = .ok args)
    (hlevel : setUpLogging machine preferences = .ok ()) (state : σ) :
    runWith access machine preferences argv state =
      perform access machine preferences args state := by
  rw [runWith, h]
  simp only [hlevel]

/-- From there on a run is its command, and what is made of its result. -/
theorem runWith_of_runs (access : FileAccess (StateM σ)) (h : Args.parse argv = .ok args)
    (hlevel : setUpLogging machine preferences = .ok ()) (hruns : args.Runs command file)
    (state : σ) :
    (runWith access machine preferences argv state).1 =
      machine.settle (carryOut access machine preferences args command file state).1 := by
  rw [runWith_of_parse access h hlevel, perform_of_runs access machine preferences hruns]
  rfl

/-- Nothing on the list is reported by the run itself. -/
theorem runWith_of_escapes (h : Escapes access machine preferences argv state failure) :
    (runWith access machine preferences argv state).1 = .error failure := by
  cases h with
  | numeral hargv hbefore hdigits hread =>
    exact runWith_of_numeral access machine preferences
      (Args.parse_eq_numeral_iff.2 ⟨_, _, _, hargv, hbefore, hdigits, hread⟩) state
  | logging hparse hlevel => exact runWith_of_level_error access hparse hlevel state
  | command hparse hlevel hruns hpasses =>
    obtain ⟨hcarried, hpassed⟩ := carryOut_of_passesOn
      (indent_optionsOf_pos (Args.positive_of_parse hparse) preferences) hpasses
    rw [runWith_of_runs access hparse hlevel hruns, hcarried, settle_of_passedOn hpassed]

/-- How a run ends: with a status, or with what is passed on of it, or because a notice cannot be
printed. -/
theorem runWith_cases (access : FileAccess (StateM σ)) (machine : Machine)
    (preferences : Preferences) (argv : List String) (state : σ)
    (hplain : Plain access argv state) :
    (∃ response, (runWith access machine preferences argv state).1 = .ok response ∧
      (response.status = 0 ∨ response.status = 1)) ∨
    (∃ failure, Escapes access machine preferences argv state failure) ∨
    ∃ line words, Notice argv line ∧ machine.console line = some words ∧
      (runWith access machine preferences argv state).1 = .error (.unprintable words) := by
  cases hparse : Args.parse argv with
  | error usage =>
    by_cases hnumeral : ∃ text fault, usage = .numeral text fault
    · obtain ⟨text, fault, rfl⟩ := hnumeral
      obtain ⟨before, after, taken, hargv, hbefore, hdigits, hread⟩ :=
        Args.parse_eq_numeral_iff.1 hparse
      exact .inr (.inl ⟨_, .numeral hargv hbefore hdigits hread⟩)
    · have hne : ∀ text fault, usage ≠ .numeral text fault :=
        fun text fault heq => hnumeral ⟨text, fault, heq⟩
      rw [runWith_of_usage access machine preferences hparse hne]
      rcases say_cases machine 1 usage.pieces with ⟨output, h⟩ | ⟨piece, words, hm, hpiece, h⟩
      · exact .inl ⟨_, h, .inr rfl⟩
      · exact .inr (.inr ⟨piece, words, .usage hparse hm, hpiece, h⟩)
  | ok args =>
  cases hlevel : setUpLogging machine preferences with
  | error failure => exact .inr (.inl ⟨failure, .logging hparse hlevel⟩)
  | ok =>
  rcases perform_cases access machine preferences args with
    ⟨command, file, hruns⟩ | ⟨status, answer, hstatus, hanswer, hperform⟩
  · rw [runWith_of_runs access hparse hlevel hruns]
    -- What becomes of the result of the command depends on whether it can be printed.
    have hpos := indent_optionsOf_pos (Args.positive_of_parse hparse) preferences
    have hcarried := carryOut_cases access machine preferences hpos command file state fun octets =>
      hplain args file octets hparse hruns.file
    rcases settle_cases machine (carryOut access machine preferences args command file state).1 with
      ⟨report, output, hreport, -, h⟩ | ⟨printed, words, h⟩ |
        ⟨trouble, failure, htrouble, hpassed, h⟩ | ⟨words, cause, hcause, h⟩
    · refine .inl ⟨_, h, ?_⟩
      rcases hcarried with ⟨given, hgiven, hstatus⟩ | ⟨told, htold, -⟩ | ⟨failure, hpasses⟩
      · cases hgiven.symm.trans hreport
        exact hstatus
      · cases htold.symm.trans hreport
      · cases (carryOut_of_passesOn hpos hpasses).1.symm.trans hreport
    · exact .inl ⟨_, h, .inr rfl⟩
    · rcases hcarried with ⟨given, hgiven, -⟩ | ⟨told, htold, hnone⟩ | ⟨failure, hpasses⟩
      · cases hgiven.symm.trans htrouble
      · cases htold.symm.trans htrouble
        cases hnone.symm.trans hpassed
      · exact .inr (.inl ⟨failure, .command hparse hlevel hruns hpasses⟩)
    · exact .inr (.inr ⟨_, cause, .error words, hcause, h⟩)
  · have hend : (runWith access machine preferences argv state).1 =
        machine.say status [answer] := by
      rw [runWith_of_parse access hparse hlevel, hperform]
      rfl
    rw [hend]
    rcases say_cases machine status [answer] with ⟨output, h⟩ | ⟨piece, words, hm, hpiece, h⟩
    · exact .inl ⟨_, h, hstatus⟩
    · refine .inr (.inr ⟨piece, words, ?_, hpiece, h⟩)
      obtain rfl := List.mem_singleton.1 hm
      rcases hanswer with rfl | rfl
      · exact .help
      · exact .version

/-- Whatever the arguments are, whatever the files hold and whatever the machine can do, a command
line ends with status 0 or 1, unless a width is given in digits that cannot be read, the log level
is none, the document is nested too deeply, the lines of its code cannot be indented, or what is to
be said cannot be printed.  A fault of the arguments is printed with status 1.  Of a command that is
carried out either the report is printed, or what went wrong is printed after the word for an error,
with status 1. -/
theorem ends_with_status (access : FileAccess (StateM σ)) (machine : Machine)
    (preferences : Preferences) (argv : List String) (state : σ)
    (hplain : Plain access argv state) :
    let ending := (runWith access machine preferences argv state).1
    (∀ response, ending = .ok response → response.status = 0 ∨ response.status = 1) ∧
    (∀ usage, Args.parse argv = .error usage → (∀ text fault, usage ≠ .numeral text fault) →
      ending = machine.say 1 usage.pieces) ∧
    (∀ args command file, Args.parse argv = .ok args → args.Runs command file →
      let carried := (carryOut access machine preferences args command file state).1
      (∀ response, ending = .ok response →
        (∃ report, carried = .ok report ∧ response.status = report.status ∧
          machine.print report.pieces = (response.output, none)) ∨
        response.status = 1 ∧ ∃ printed words, response.output = printed ++ errorLine words) ∧
      ∀ trouble, carried = .error trouble → trouble.passedOn? = none →
        setUpLogging machine preferences = .ok () →
        ending = machine.tell "" trouble.message) ∧
    (∀ failure, Escapes access machine preferences argv state failure →
      ending = .error failure) ∧
    ∀ failure, ending = .error failure → Escapes access machine preferences argv state failure ∨
      ∃ line words, Notice argv line ∧ machine.console line = some words ∧
        failure = .unprintable words := by
  intro ending
  have hcases := runWith_cases access machine preferences argv state hplain
  refine ⟨?_, fun usage hparse hne => runWith_of_usage access machine preferences hparse hne state,
    fun args command file hparse hruns => ⟨?_, ?_⟩, fun failure => runWith_of_escapes, ?_⟩
  · intro response hresponse
    rcases hcases with ⟨given, h, hstatus⟩ | ⟨failure, hescapes⟩ | ⟨line, words, -, -, h⟩
    · cases h.symm.trans hresponse
      exact hstatus
    · cases (runWith_of_escapes hescapes).symm.trans hresponse
    · cases h.symm.trans hresponse
  · intro response hresponse
    cases hlevel : setUpLogging machine preferences with
    | error failure =>
      cases (runWith_of_level_error access hparse hlevel state).symm.trans hresponse
    | ok =>
    -- A run that answers was not stopped, so its command reports or is told about.
    have hend := (runWith_of_runs access hparse hlevel hruns state).symm.trans hresponse
    rcases settle_cases machine (carryOut access machine preferences args command file state).1 with
      ⟨report, output, hreport, hprint, h⟩ | ⟨printed, words, h⟩ | ⟨trouble, failure, -, -, h⟩ |
        ⟨words, cause, -, h⟩
    · cases h.symm.trans hend
      exact .inl ⟨report, hreport, rfl, hprint⟩
    · cases h.symm.trans hend
      exact .inr ⟨rfl, printed, words, rfl⟩
    · cases h.symm.trans hend
    · cases h.symm.trans hend
  · intro trouble htrouble hnone hlevel
    have hend := runWith_of_runs access hparse hlevel hruns state
    rw [htrouble, settle_of_told hnone] at hend
    exact hend
  · intro failure hfailure
    rcases hcases with ⟨given, h, -⟩ | ⟨other, hescapes⟩ | ⟨line, words, hnotice, hwords, h⟩
    · cases h.symm.trans hfailure
    · cases (runWith_of_escapes hescapes).symm.trans hfailure
      exact .inl hescapes
    · cases h.symm.trans hfailure
      exact .inr ⟨line, words, hnotice, hwords, rfl⟩

end Commands

/-- A check of a file that is not there, with a width that is given in Arabic digits. -/
theorem ends_with_status_missing :
    Args.parse ["check", "page.json", "--indent", "٣"] =
      .ok { command := some .check, file := some "page.json", indent := some 3 } ∧
    (run {} .empty ["check", "page.json", "--indent", "٣"]).1 =
      .ok ⟨1, "Error: [Errno 2] No such file or directory: 'page.json'\n"⟩ := by
  have hparse : Args.parse ["check", "page.json", "--indent", "٣"] =
      .ok { command := some .check, file := some "page.json", indent := some 3 } := by
    decide +kernel
  have hmissing : (Files.access.read (Path.ofText "page.json") .empty).1 = .error .missing := by
    decide +kernel
  have hplain : Plain Files.access ["check", "page.json", "--indent", "٣"] .empty := by
    intro args file octets h hfile hread
    cases hparse.symm.trans h
    cases hfile
    cases hmissing.symm.trans hread
  obtain ⟨-, -, hcarried, -⟩ := ends_with_status Files.access .unlimited {}
    ["check", "page.json", "--indent", "٣"] .empty hplain
  have hending := (hcarried _ .check "page.json" hparse ⟨rfl, rfl, rfl, rfl⟩).2
    (.file (Path.ofText "page.json") .missing) (by decide +kernel) rfl rfl
  exact ⟨hparse, hending.trans (by decide +kernel)⟩

/-- The file of an empty page. -/
def emptyFile : Files :=
  .ofList [("page.json", Text.Utf8.encode "\x7b\x7d")]

/-- A superscript two is no integer, and that is passed on before any file is read.  A width of
twenty nines is one, and is passed on when the code of an empty page is written. -/
theorem ends_with_status_widths :
    (run {} emptyFile ["check", "page.json", "--indent", "²"]).1 = .error (.integerText "²") ∧
    (run {} emptyFile ["generate", "page.json", "--indent", "99999999999999999999"]).1 =
      .error .indentTooWide := by
  decide +kernel

end PageBuilder.CommandLine
