import PageBuilder.Proofs.CommandLine.Agreement

/-!
# Arguments in groups

Arguments are taken in groups: a command or a file, an option alone, or an option with its value,
whatever the value looks like (`cut`).  What they say comes out of the groups kind by kind: the
commands and files in their order, and of each option with a value the last one (`meaning`).
Whether they make sense comes out of the same (`Sensible`).  So groups of different kinds can change
places (`Rearranged`).

What is taken of a group depends on what was taken before, as a file may be called like a command;
so the two are related by an induction from the end of the arguments (`take_meaning`).
-/

namespace PageBuilder.CommandLine.Args

open Results

/-! ## Groups -/

/-- What is taken of the arguments at once. -/
inductive Group
  /-- A command or a file. -/
  | word (text : String)
  | flag (name : String)
  | option (name value : String)
deriving DecidableEq, Repr

namespace Group

def tokens : Group → List String
  | word text => [text]
  | flag name => [name]
  | option name value => [name, value]

/-- The option that a group begins with, if it is no command or file. -/
def label : Group → Option String
  | word _ => none
  | flag name => some name
  | option name _ => some name

def value? : Group → Option String
  | option _ value => some value
  | _ => none

/-- A group that can be told by what it begins with. -/
def Proper : Group → Prop
  | word text => text ∉ valued ++ flags
  | flag name => name ∈ flags
  | option name _ => name ∈ valued

end Group

variable {argv : List String} {args final : Args} {group : Group} {groups other : List Group}

/-- The group of an argument that takes no value. -/
def alone (arg : String) : Group :=
  if flags.contains arg then .flag arg else .word arg

/-- The groups of arguments, from left to right; none if the last option lacks its value. -/
def cut : List String → Option (List Group)
  | [] => some []
  | [arg] => if valued.contains arg then none else some [alone arg]
  | arg :: next :: rest =>
    if valued.contains arg then (cut rest).map (.option arg next :: ·)
    else (cut (next :: rest)).map (alone arg :: ·)

theorem not_valued_of_flag : ∀ name ∈ flags, valued.contains name = false := by
  decide

theorem tokens_alone (arg : String) : (alone arg).tokens = [arg] := by
  unfold alone
  split <;> rfl

theorem proper_alone {arg : String} (h : valued.contains arg = false) : (alone arg).Proper := by
  unfold alone
  split
  case isTrue hflag => exact List.contains_iff_mem.1 hflag
  case isFalse hflag =>
    rw [Group.Proper, List.mem_append, not_or]
    exact ⟨by simpa using h, by simpa using hflag⟩

theorem cut_alone {arg : String} (h : valued.contains arg = false) (rest : List String) :
    cut (arg :: rest) = (cut rest).map (alone arg :: ·) := by
  cases rest with
  | nil =>
    unfold cut
    rw [h]
    rfl
  | cons next rest =>
    rw [cut, h]
    rfl

theorem cut_tokens (h : group.Proper) (rest : List String) :
    cut (group.tokens ++ rest) = (cut rest).map (group :: ·) := by
  cases group with
  | word text =>
    obtain ⟨hvalued, hflag⟩ := not_or.1 (mt List.mem_append.2 h)
    have halone : alone text = .word text := if_neg (by simpa using hflag)
    rw [← halone, tokens_alone, List.singleton_append, cut_alone (by simpa using hvalued)]
  | flag name =>
    have halone : alone name = .flag name := if_pos (List.contains_iff_mem.2 h)
    rw [← halone, tokens_alone, List.singleton_append, cut_alone (not_valued_of_flag name h)]
  | option name value => exact if_pos (List.contains_iff_mem.2 h)

/-- Arguments fall into groups in one way only. -/
theorem cut_eq_some_iff :
    cut argv = some groups ↔ groups.flatMap Group.tokens = argv ∧ ∀ g ∈ groups, g.Proper := by
  constructor
  · intro h
    fun_induction cut argv generalizing groups with
    | case1 =>
      cases h
      exact ⟨rfl, nofun⟩
    | case2 arg hvalued => cases h
    | case3 arg hvalued =>
      cases h
      exact ⟨by rw [List.flatMap_singleton, tokens_alone],
        List.forall_mem_singleton.2 (proper_alone (by simpa using hvalued))⟩
    | case4 arg next rest hvalued ih =>
      obtain ⟨more, hmore, rfl⟩ := Option.map_eq_some_iff.1 h
      obtain ⟨htokens, hproper⟩ := ih hmore
      exact ⟨congrArg (arg :: next :: ·) htokens,
        List.forall_mem_cons.2 ⟨List.contains_iff_mem.1 hvalued, hproper⟩⟩
    | case5 arg next rest hvalued ih =>
      obtain ⟨more, hmore, rfl⟩ := Option.map_eq_some_iff.1 h
      obtain ⟨htokens, hproper⟩ := ih hmore
      refine ⟨?_, List.forall_mem_cons.2 ⟨proper_alone (by simpa using hvalued), hproper⟩⟩
      rw [List.flatMap_cons, tokens_alone, htokens]
      rfl
  · rintro ⟨rfl, hproper⟩
    induction groups with
    | nil => rfl
    | cons g rest ih =>
      obtain ⟨hg, hrest⟩ := List.forall_mem_cons.1 hproper
      rw [List.flatMap_cons, cut_tokens hg, ih hrest, Option.map_some]

/-! ## Taking groups -/

/-- Takes one group. -/
def take (args : Args) : Group → Except UsageFault Args
  | .word text => args.takeAlone text
  | .flag name => args.takeAlone name
  | .option name value => args.setValue name value

theorem takeAll_tokens (h : ∀ g ∈ groups, g.Proper) :
    takeAll args (groups.flatMap Group.tokens) = groups.foldlM take args := by
  induction groups generalizing args with
  | nil => rfl
  | cons g rest ih =>
    obtain ⟨hg, hrest⟩ := List.forall_mem_cons.1 h
    rw [List.flatMap_cons, List.foldlM_cons]
    simp only [← ih hrest]
    cases g with
    | word text =>
      obtain ⟨hvalued, -⟩ := not_or.1 (mt List.mem_append.2 hg)
      exact takeAll_alone (by simpa using hvalued)
    | flag name => exact takeAll_alone (not_valued_of_flag name hg)
    | option name value => exact takeAll_valued (List.contains_iff_mem.2 hg) value

/-- Arguments that make sense fall into groups. -/
theorem exists_cut (h : takeAll args argv = .ok final) : ∃ groups, cut argv = some groups := by
  fun_induction takeAll args argv with
  | case1 args => exact ⟨[], rfl⟩
  | case2 args arg hvalued => cases h
  | case3 args arg hvalued => exact ⟨[alone arg], if_neg hvalued⟩
  | case4 args arg next rest hvalued fault hset => cases h
  | case5 args arg next rest hvalued taken hset ih =>
    obtain ⟨groups, hcut⟩ := ih h
    exact ⟨.option arg next :: groups, by rw [cut, if_pos hvalued, hcut, Option.map_some]⟩
  | case6 args arg next rest hvalued fault htake => cases h
  | case7 args arg next rest hvalued taken htake ih =>
    obtain ⟨groups, hcut⟩ := ih h
    exact ⟨alone arg :: groups, by rw [cut, if_neg hvalued, hcut, Option.map_some]⟩

/-! ## What groups mean -/

/-- The commands and files in their order. -/
def words (groups : List Group) : List String :=
  (groups.filter (·.label = none)).flatMap Group.tokens

/-- The value of an option where it stands last. -/
def lastValue (name : String) (groups : List Group) : Option String :=
  (groups.filter (·.label = some name)).getLast?.bind Group.value?

/-- What groups say that make sense. -/
def meaning (groups : List Group) : Args where
  command := (words groups)[0]?.bind Command.ofName?
  file := (words groups)[1]?
  dialect := lastValue "--dialect" groups
  name := lastValue "--name" groups
  indent := (lastValue "--indent" groups).bind fun value => (indentOf value).toOption
  out := lastValue "--out" groups
  markup := groups.contains (.flag "--markup")
  imports := !groups.contains (.flag "--no-imports")
  help := groups.contains (.flag "--help") || groups.contains (.flag "-h")
  version := groups.contains (.flag "--version") || groups.contains (.flag "-v")

/-- At most a command and a file that is no option. -/
def InPlace : List String → Prop
  | [] => True
  | [command] => (Command.ofName? command).isSome = true
  | [command, file] => (Command.ofName? command).isSome = true ∧ file.startsWith "-" = false
  | _ => False

/-- Groups that make sense. -/
structure Sensible (groups : List Group) : Prop where
  words : InPlace (words groups)
  widths : ∀ value, .option "--indent" value ∈ groups → ∃ n, indentOf value = .ok n

theorem words_append (groups : List Group) (g : Group) :
    words (groups ++ [g]) = words groups ++ if g.label = none then g.tokens else [] := by
  rw [words, List.filter_append, List.flatMap_append, ← words]
  cases g <;> rfl

theorem lastValue_append (name : String) (groups : List Group) (g : Group) :
    lastValue name (groups ++ [g]) =
      if g.label = some name then g.value? else lastValue name groups := by
  rw [lastValue, List.filter_append, List.getLast?_append]
  by_cases h : g.label = some name <;> simp [h, lastValue]

theorem InPlace.front {texts : List String} {text : String} (h : InPlace (texts ++ [text])) :
    InPlace texts := by
  match texts, h with
  | [], _ => trivial
  | [_], h => exact h.1
  | _ :: _ :: rest, h => cases rest <;> cases h

theorem InPlace.exists_command {texts : List String} {first : String} (h : InPlace texts)
    (hfirst : texts[0]? = some first) : ∃ command, Command.ofName? first = some command := by
  match texts, h with
  | [], _ => cases hfirst
  | [_], h =>
    cases hfirst
    exact Option.isSome_iff_exists.1 h
  | [_, _], h =>
    cases hfirst
    exact Option.isSome_iff_exists.1 h.1
  | _ :: _ :: _ :: _, h => cases h

theorem sensible_append_iff : Sensible (groups ++ [group]) ↔
    Sensible groups ∧ InPlace (words (groups ++ [group])) ∧
      ∀ value, group = .option "--indent" value → ∃ n, indentOf value = .ok n := by
  constructor
  · intro h
    refine ⟨⟨?_, fun value hm => h.widths value (List.mem_append_left _ hm)⟩, h.words, ?_⟩
    · have hwords := h.words
      rw [words_append] at hwords
      cases group with
      | word text => exact hwords.front
      | flag | option => rwa [if_neg nofun, List.append_nil] at hwords
    · rintro value rfl
      exact h.widths value (by simp)
  · rintro ⟨hgroups, hwords, hwidth⟩
    refine ⟨hwords, fun value hm => ?_⟩
    rcases List.mem_append.1 hm with hm | hm
    · exact hgroups.widths value hm
    · exact hwidth value (List.mem_singleton.1 hm).symm

theorem takeAlone_of_no_command {text : String} (hcommand : args.command = none)
    (hflag : text ∉ flags) : args.takeAlone text =
      (Command.ofName? text).elim (args.takeWord text) fun command =>
        .ok { args with command := some command } := by
  unfold takeAlone
  split
  case h_7 => cases Command.ofName? text <;> simp [hcommand]
  all_goals exact absurd (by decide) hflag

/-- After what groups mean that make sense, what can be taken of a word is up to its place. -/
theorem take_word (hsensible : Sensible groups) {text : String} (h : text ∉ flags) :
    (meaning groups).takeAlone text = .ok final ↔
      InPlace (words groups ++ [text]) ∧ final = meaning (groups ++ [.word text]) := by
  have hmeaning : meaning (groups ++ [.word text]) =
      { meaning groups with
        command := (words groups ++ [text])[0]?.bind Command.ofName?
        file := (words groups ++ [text])[1]? } := by
    simp [meaning, words_append, lastValue_append, Group.label, Group.tokens]
  have hcommand : (meaning groups).command = (words groups)[0]?.bind Command.ofName? := rfl
  have hfile : (meaning groups).file = (words groups)[1]? := rfl
  have hplace := hsensible.words
  rw [hmeaning]
  -- The first word is the command, the second the file, and a third has no place.
  cases hwords : words groups with
  | nil =>
    rw [hwords] at hcommand hfile
    rw [takeAlone_of_no_command hcommand h]
    cases hname : Command.ofName? text with
    | none => cases htext : text.startsWith "-" <;> simp [takeWord, hcommand, htext, hname, InPlace]
    | some command => simp [hfile, hname, InPlace, eq_comm]
  | cons first rest =>
    rw [hwords] at hcommand hfile hplace
    obtain ⟨command, hname⟩ := hplace.exists_command rfl
    rw [takeAlone_eq_takeWord (Option.isSome_iff_exists.2 ⟨command, hcommand.trans hname⟩) h]
    cases rest with
    | nil =>
      cases htext : text.startsWith "-" <;>
        simp [takeWord, hcommand, hfile, hname, htext, InPlace, eq_comm]
    | cons second rest =>
      cases rest with
      | nil =>
        cases htext : text.startsWith "-" <;>
          simp [takeWord, hcommand, hfile, hname, htext, InPlace]
      | cons => cases hplace

theorem take_flag {name : String} (h : name ∈ flags) :
    (meaning groups).takeAlone name = .ok (meaning (groups ++ [.flag name])) := by
  have hwords : words (groups ++ [.flag name]) = words groups := by
    simp [words_append, Group.label]
  simp only [flags, List.mem_cons, List.not_mem_nil, or_false] at h
  rcases h with rfl | rfl | rfl | rfl | rfl | rfl
  all_goals
    simp [meaning, takeAlone, hwords, lastValue_append, Group.label]

theorem take_option {name value : String} (h : name ∈ valued) :
    (meaning groups).setValue name value = .ok final ↔
      (name = "--indent" → ∃ n, indentOf value = .ok n) ∧
        final = meaning (groups ++ [.option name value]) := by
  have hwords : words (groups ++ [.option name value]) = words groups := by
    simp [words_append, Group.label]
  simp only [valued, List.mem_cons, List.not_mem_nil, or_false] at h
  rcases h with rfl | rfl | rfl | rfl
  case inr.inr.inl =>
    cases hwidth : indentOf value <;>
      simp [meaning, setValue, hwords, hwidth, lastValue_append, Group.label, Group.value?,
        Except.toOption, eq_comm]
  all_goals
    simp [meaning, setValue, hwords, lastValue_append, Group.label, Group.value?, eq_comm]

theorem take_meaning (hsensible : Sensible groups) (h : group.Proper) :
    take (meaning groups) group = .ok final ↔
      Sensible (groups ++ [group]) ∧ final = meaning (groups ++ [group]) := by
  simp only [sensible_append_iff, hsensible, true_and, words_append]
  have hplace := hsensible.words
  cases group with
  | word text =>
    obtain ⟨-, hflag⟩ := not_or.1 (mt List.mem_append.2 h)
    exact (take_word hsensible hflag).trans (and_congr_left fun _ => (and_iff_left nofun).symm)
  | flag name =>
    have htake : take (meaning groups) (.flag name) = .ok (meaning (groups ++ [.flag name])) :=
      take_flag h
    simp [htake, Group.label, hplace, eq_comm]
  | option name value =>
    refine (take_option h).trans (and_congr_left fun _ => ?_)
    simp [Group.label, hplace]

/-- Groups are taken exactly if they make sense, and come to what they mean. -/
theorem foldlM_take_iff (h : ∀ g ∈ groups, g.Proper) :
    groups.foldlM take {} = .ok final ↔ Sensible groups ∧ final = meaning groups := by
  induction groups using List.reverseRecOn generalizing final with
  | nil =>
    have hnone : Sensible [] := ⟨trivial, nofun⟩
    simp [hnone, meaning, words, lastValue, eq_comm]
  | append_singleton groups g ih =>
    obtain ⟨hgroups, hg⟩ := List.forall_mem_append.1 h
    have hg : g.Proper := hg g List.mem_cons_self
    rw [List.foldlM_append]
    constructor
    · intro hfinal
      obtain ⟨before, hbefore, hfinal⟩ := exists_of_bind hfinal
      obtain ⟨hsensible, rfl⟩ := (ih hgroups).1 hbefore
      rw [List.foldlM_cons] at hfinal
      obtain ⟨after, hafter, hfinal⟩ := exists_of_bind hfinal
      obtain rfl := Except.ok.inj hfinal
      exact (take_meaning hsensible hg).1 hafter
    · intro hmeaning
      have hsensible := (sensible_append_iff.1 hmeaning.1).1
      rw [(ih hgroups).2 ⟨hsensible, rfl⟩, ok_bind, List.foldlM_cons,
        (take_meaning hsensible hg).2 hmeaning]
      rfl

theorem parse_tokens_iff (h : ∀ g ∈ groups, g.Proper) :
    Args.parse (groups.flatMap Group.tokens) = .ok final ↔
      Sensible groups ∧ final = meaning groups := by
  rw [Args.parse, takeAll_tokens h]
  exact foldlM_take_iff h

theorem exists_of_parse (h : Args.parse argv = .ok final) :
    ∃ groups, cut argv = some groups ∧ groups.flatMap Group.tokens = argv ∧
      (∀ g ∈ groups, g.Proper) ∧ Sensible groups ∧ final = meaning groups := by
  obtain ⟨groups, hcut⟩ := exists_cut h
  obtain ⟨rfl, hproper⟩ := cut_eq_some_iff.1 hcut
  exact ⟨groups, hcut, rfl, hproper, (parse_tokens_iff hproper).1 h⟩

/-! ## Rearrangements -/

/-- The same groups in an order in which commands and files, and the groups of each option, keep
theirs. -/
def Rearranged (groups other : List Group) : Prop :=
  ∀ label, other.filter (·.label = label) = groups.filter (·.label = label)

instance (groups other : List Group) : Decidable (Rearranged groups other) :=
  decidable_of_iff (∀ g ∈ groups ++ other,
      other.filter (·.label = g.label) = groups.filter (·.label = g.label)) <| by
    refine ⟨fun h label => ?_, fun h g _ => h g.label⟩
    by_cases hlabel : ∃ g ∈ groups ++ other, g.label = label
    · obtain ⟨g, hg, rfl⟩ := hlabel
      exact h g hg
    · simp only [not_exists, not_and, List.mem_append] at hlabel
      rw [List.filter_eq_nil_iff.2 fun g hg => by simpa using hlabel g (Or.inr hg),
        List.filter_eq_nil_iff.2 fun g hg => by simpa using hlabel g (Or.inl hg)]

theorem Rearranged.mem_iff (h : Rearranged groups other) : group ∈ other ↔ group ∈ groups := by
  have hmem : ∀ gs : List Group, group ∈ gs.filter (·.label = group.label) ↔ group ∈ gs := by
    simp
  rw [← hmem, h, hmem]

/-- Nothing is left out, and nothing is taken twice. -/
theorem Rearranged.perm (h : Rearranged groups other) : other.Perm groups := by
  apply List.perm_iff_count.2
  intro g
  have hcount : ∀ gs : List Group, (gs.filter (·.label = g.label)).count g = gs.count g :=
    fun gs => List.count_filter (by simp)
  rw [← hcount, h, hcount]

theorem Rearranged.words_eq (h : Rearranged groups other) : words other = words groups := by
  rw [words, h, words]

theorem Rearranged.meaning_eq (h : Rearranged groups other) : meaning other = meaning groups := by
  have hcontains : ∀ g, other.contains g = groups.contains g := by
    simp [h.mem_iff]
  simp only [meaning, h.words_eq, hcontains, lastValue, h _]

theorem Rearranged.sensible (h : Rearranged groups other) (hsensible : Sensible groups) :
    Sensible other :=
  ⟨h.words_eq ▸ hsensible.words, fun value hm => hsensible.widths value (h.mem_iff.1 hm)⟩

/-! ## Leaving an option out -/

/-- Arguments without an option and its values. -/
def without (name : String) (argv : List String) : List String :=
  match cut argv with
  | none => argv
  | some groups => (groups.filter (·.label ≠ some name)).flatMap Group.tokens

theorem filter_label_without (name : String) (label : Option String) (groups : List Group) :
    (groups.filter (·.label ≠ some name)).filter (·.label = label) =
      if label = some name then [] else groups.filter (·.label = label) := by
  rw [List.filter_filter]
  split
  case isTrue h => simp [h]
  case isFalse h =>
    refine List.filter_congr fun g _ => ?_
    by_cases hg : g.label = label <;> simp [hg, h]

/-- What is left says the same but for where the output goes. -/
theorem parse_without_out (h : Args.parse argv = .ok args) :
    Args.parse (without "--out" argv) = .ok { args with out := none } := by
  obtain ⟨groups, hcut, -, hproper, hsensible, rfl⟩ := exists_of_parse h
  have hwords : words (groups.filter (·.label ≠ some "--out")) = words groups := by
    rw [words, filter_label_without, if_neg nofun, words]
  have hlast : ∀ name, lastValue name (groups.filter (·.label ≠ some "--out")) =
      if name = "--out" then none else lastValue name groups := by
    intro name
    rw [lastValue, filter_label_without]
    by_cases hname : name = "--out" <;> simp [hname, lastValue]
  have hflag : ∀ name, name ≠ "--out" →
      (groups.filter (·.label ≠ some "--out")).contains (.flag name) =
        groups.contains (.flag name) := by
    intro name hne
    simp [Group.label, hne]
  have hmeaning : meaning (groups.filter (·.label ≠ some "--out")) =
      { meaning groups with out := none } := by
    simp (disch := decide) only [meaning, hwords, hlast, hflag, String.reduceEq, if_true, if_false]
  rw [without, hcut]
  refine (parse_tokens_iff fun g hm => hproper g (List.mem_filter.1 hm).1).2 ⟨?_, hmeaning.symm⟩
  exact ⟨hwords ▸ hsensible.words, fun value hm =>
    hsensible.widths value (List.mem_filter.1 hm).1⟩

/-! ## What is read off the groups -/

theorem ofName?_eq_some_iff {text : String} {command : Command} :
    Command.ofName? text = some command ↔ command.name = text := by
  constructor
  · intro h
    unfold Command.ofName? at h
    split at h <;> cases h <;> rfl
  · rintro rfl
    cases command <;> rfl

theorem integer?_of_indentOf {value : String} {n : Int} (h : indentOf value = .ok n) :
    Number.integer? value = some n := by
  unfold indentOf at h
  split at h
  · split at h
    · cases h
    · rename_i hn
      split at h
      · cases h
      · cases h
        exact Number.integer?_of_readInteger hn
  · cases h

theorem mem_of_lastValue {name value : String} (h : lastValue name groups = some value) :
    .option name value ∈ groups := by
  obtain ⟨g, hlast, hvalue⟩ := Option.bind_eq_some_iff.1 h
  obtain ⟨hmem, hlabel⟩ := List.mem_filter.1 (List.mem_of_getLast? hlast)
  cases g with
  | word | flag => cases hvalue
  | option =>
    obtain rfl := Option.some.inj hvalue
    obtain rfl := Option.some.inj (of_decide_eq_true hlabel)
    exact hmem

/-- The first word is the command. -/
theorem command_of_sensible (h : Sensible groups) :
    (meaning groups).command.map Command.name = (words groups)[0]? := by
  show ((words groups)[0]?.bind Command.ofName?).map Command.name = _
  cases hfirst : (words groups)[0]? with
  | none => rfl
  | some first =>
    obtain ⟨command, hcommand⟩ := h.words.exists_command hfirst
    rw [Option.bind_some, hcommand, Option.map_some, ofName?_eq_some_iff.1 hcommand]

/-- The width is the number that the last text given for it denotes. -/
theorem indent_of_sensible (h : Sensible groups) :
    (meaning groups).indent.map some = (lastValue "--indent" groups).map Number.integer? := by
  show ((lastValue "--indent" groups).bind fun value => (indentOf value).toOption).map some = _
  cases hvalue : lastValue "--indent" groups with
  | none => rfl
  | some value =>
    obtain ⟨n, hn⟩ := h.widths value (mem_of_lastValue hvalue)
    rw [Option.map_some, integer?_of_indentOf hn, Option.bind_some, hn]
    rfl

/-- Arguments that make sense fall into groups, and say the same in every order of the groups in
which commands and files, and the groups of each option, keep theirs.  The first word is the
command and the second one the file, and of an option with a value the last value counts. -/
theorem order_irrelevant (h : Args.parse argv = .ok args) :
    ∃ groups, cut argv = some groups ∧ groups.flatMap Group.tokens = argv ∧
      (∀ other, Rearranged groups other →
        Args.parse (other.flatMap Group.tokens) = .ok args) ∧
      args.command.map Command.name = (words groups)[0]? ∧
      args.file = (words groups)[1]? ∧
      args.dialect = lastValue "--dialect" groups ∧
      args.name = lastValue "--name" groups ∧
      args.indent.map some = (lastValue "--indent" groups).map Number.integer? ∧
      args.out = lastValue "--out" groups := by
  obtain ⟨groups, hcut, htokens, hproper, hsensible, rfl⟩ := exists_of_parse h
  refine ⟨groups, hcut, htokens, fun other hother => ?_, command_of_sensible hsensible, rfl, rfl,
    rfl, indent_of_sensible hsensible, rfl⟩
  have hall : ∀ g ∈ other, g.Proper := fun g hm => hproper g (hother.mem_iff.1 hm)
  exact (parse_tokens_iff hall).2 ⟨hother.sensible hsensible, hother.meaning_eq.symm⟩

/-- A file that is called like a command, a value that looks like an option and one that looks like
a command, and two values for one option. -/
theorem order_irrelevant_lookalikes :
    Args.parse ["--out", "--markup", "generate", "--indent", "٣", "-h", "check", "--out",
        "generate", "--no-imports"] =
      .ok { command := some .generate, file := some "check", indent := some 3,
            out := some "generate", imports := false, help := true } ∧
    Args.parse ["--no-imports", "generate", "-h", "--out", "--markup", "check", "--out",
        "generate", "--indent", "٣"] =
      .ok { command := some .generate, file := some "check", indent := some 3,
            out := some "generate", imports := false, help := true } := by
  have hparse : Args.parse ["--out", "--markup", "generate", "--indent", "٣", "-h", "check",
      "--out", "generate", "--no-imports"] =
      .ok { command := some .generate, file := some "check", indent := some 3,
            out := some "generate", imports := false, help := true } := by
    decide +kernel
  refine ⟨hparse, ?_⟩
  obtain ⟨groups, hcut, -, hother, -⟩ := order_irrelevant hparse
  cases hcut
  exact hother [.flag "--no-imports", .word "generate", .flag "-h", .option "--out" "--markup",
    .word "check", .option "--out" "generate", .option "--indent" "٣"] (by decide +kernel)

end PageBuilder.CommandLine.Args
