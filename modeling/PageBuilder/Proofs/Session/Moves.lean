import PageBuilder.Proofs.Draft.Growth
import PageBuilder.Session.Script

/-!
# What a command does to a session

`Move` lists everything one command can make of a session, whatever state the session is in: an
edit of the draft that is carried out and recorded, or that stops half-way; a snapshot loaded; a
step along the timeline; or a change of what is kept beside the page.  `Outcome` adds how the
command ends, with a failure or with a reply.  `Command.run_outcome` says that there is nothing
else, so what holds of sessions is proved by one case for each kind of move or outcome and never
looks at the commands again.
-/

namespace PageBuilder.Session

open Results

variable {α β : Type} {s s' t : Session}

/-! ## Parts of a session -/

/-- The session with another draft. -/
def withDraft (s : Session) (draft : Draft) : Session :=
  { s with draft := draft }

/-- The session with another selection. -/
def selecting (s : Session) (selection : List String) : Session :=
  { s with selection := selection }

/-- The session with another page, and what a snapshot says of selection and viewport. -/
def restored (s : Session) (snapshot : Snapshot) (draft : Draft) : Session :=
  { s with
    draft := draft
    selection := snapshot.selection.filter draft.page.contains
    viewport := snapshot.viewport.orStandard }

theorem openBatches_changed (s : Session) : s.changed.openBatches = s.openBatches := by
  unfold Session.changed
  split <;> rfl

theorem draft_changed (s : Session) : s.changed.draft = s.draft := by
  unfold Session.changed
  split <;> rfl

@[simp] theorem selection_changed (s : Session) : s.changed.selection = s.selection := by
  unfold Session.changed
  split <;> rfl

theorem clipboard_changed (s : Session) : s.changed.clipboard = s.clipboard := by
  unfold Session.changed
  split <;> rfl

theorem snapshot_changed (s : Session) : s.changed.snapshot = s.snapshot := by
  unfold Session.changed
  split <;> rfl

theorem inBatch_congr (h : s'.openBatches = s.openBatches) : s'.inBatch = s.inBatch := by
  unfold inBatch
  rw [h]

theorem get_eq (s : Session) : (get : Action Session) s = .ok s s := rfl

theorem lift_of_ok {result : Except Failure α} {a : α} (h : result = .ok a) (s : Session) :
    lift result s = .ok a s := by
  rw [h]
  rfl

section OnDraft

variable {action : Draft.Action α} {after : Draft}

theorem onDraft_of_ok {a : α} (h : action s.draft = .ok a after) :
    onDraft action s = .ok a (s.withDraft after) := by
  rw [onDraft, h]
  rfl

theorem onDraft_of_error {failure : Failure} (h : action s.draft = .error failure after) :
    onDraft action s = .error failure (s.withDraft after) := by
  rw [onDraft, h]
  rfl

end OnDraft

theorem restore_cases (snapshot : Snapshot) (s : Session) :
    (∃ failure, restore snapshot s = .error failure s) ∨
      ∃ draft, Draft.ofPage s.draft.catalog s.draft.ids snapshot.page = .ok draft ∧
        restore snapshot s = .ok () (s.restored snapshot draft) := by
  unfold restore
  cases Draft.ofPage s.draft.catalog s.draft.ids snapshot.page with
  | error failure => exact Or.inl ⟨failure, rfl⟩
  | ok draft => exact Or.inr ⟨draft, rfl, rfl⟩

/-- A snapshot that passes the checks, and whose ids make sense to the source, is loaded. -/
theorem load_of_checks {snapshot : Snapshot} {draft : Draft}
    (hcheck : checkLoad s.draft.catalog snapshot = .ok ())
    (hdraft : Draft.ofPage s.draft.catalog s.draft.ids snapshot.page = .ok draft) :
    Session.load snapshot s = .ok () (s.restored snapshot draft).changed := by
  have hrestore : Session.restore snapshot s = .ok () (s.restored snapshot draft) := by
    rw [Session.restore, hdraft]
    rfl
  exact (bind_of_ok (lift_of_ok hcheck s) _).trans (bind_of_ok hrestore _)

/-! ## Kinds of commands -/

/-- A command that has a change to commit. -/
def Command.Commits (s : Session) : Command → Prop
  | .insert .. | .move .. | .updateProps .. | .updateStyle .. | .remove .. | .duplicate .. => True
  | .load .. => True
  | .paste .. => s.clipboard ≠ none
  | .clear => s.draft.page.isEmpty = false
  | _ => False

/-- A command that moves along the timeline. -/
def Command.Travels : Command → Prop
  | .undo | .redo => True
  | _ => False

theorem Command.Travels.not_commits {command : Command} (h : command.Travels) (s : Session) :
    ¬ command.Commits s := by
  intro hc
  cases command <;> first | exact h.elim | exact hc.elim

/-- The edit of the draft that a command comes to, if it comes to one. -/
def Command.edit? (s : Session) : Command → Option Draft.Edit
  | .insert parent kind index props style => some (.insert parent kind index props style)
  | .move id target index => some (.move id target index)
  | .updateProps id props => some (.updateProps id props)
  | .updateStyle id style => some (.updateStyle id style)
  | .remove id => some (.remove id)
  | .clear => if s.draft.page.isEmpty then none else some .clear
  | .duplicate id =>
    match planDuplicate s.draft id with
    | .ok plan => some (.attach (some plan.parent) plan.nodes (some plan.index))
    | .error _ => none
  | .paste parent index =>
    s.clipboard.map fun nodes => .attach (parent.or s.draft.page.root) nodes index
  | _ => none

section Edit

variable {command : Command} {edit : Draft.Edit}

theorem edit?_duplicate {id : String} {plan : Duplicate} (h : planDuplicate s.draft id = .ok plan) :
    (Command.duplicate id).edit? s =
      some (.attach (some plan.parent) plan.nodes (some plan.index)) := by
  rw [Command.edit?, h]

theorem edit?_paste {nodes : List Element} (h : s.clipboard = some nodes) (parent : Option String)
    (index : Option Int) : (Command.paste parent index).edit? s =
      some (.attach (parent.or s.draft.page.root) nodes index) := by
  rw [Command.edit?, h]
  rfl

theorem commits_of_edit (h : command.edit? s = some edit) : command.Commits s := by
  cases command with
  | insert | move | updateProps | updateStyle | remove | duplicate | load => trivial
  | paste parent index =>
    intro hnone
    rw [Command.edit?, hnone] at h
    cases h
  | clear =>
    rw [Command.edit?] at h
    split at h
    · cases h
    · rename_i hne
      exact Bool.eq_false_iff.2 hne
  | copy | undo | redo | select | clearSelection | setViewport | setZoom | generate | save
  | entries | ask => cases h

theorem Command.Travels.edit?_eq (h : command.Travels) (s : Session) : command.edit? s = none := by
  cases command <;> first | exact h.elim | rfl

end Edit

/-- The ids given to new elements by a command: those its edit draws, if it is carried out. -/
def Command.created (s : Session) (command : Command) : List String :=
  match command.edit? s with
  | none => []
  | some edit =>
    match edit.run s.draft with
    | .ok _ _ => edit.drawn s.draft
    | .error _ _ => []

/-! ## Moves -/

/-- A setting of the viewport that a command can make. -/
inductive Setting : String → Value → Prop
  | name {name : String} (h : name ∈ Failure.viewportNames) : Setting "name" (.str name)
  | zoom {zoom : Int} (hl : Archive.leastZoom ≤ zoom) (hg : zoom ≤ Archive.greatestZoom) :
      Setting "zoom" (.int zoom)

/-- What an edit can leave selected: the element it has added, or of what was selected no more than
it has not removed. -/
def Leaves (before : List String) : Draft.Effect → List String → Prop
  | .changed, after => after = before
  | .added id, after => after = [id]
  | .removed ids, after => after.Sublist (before.filter fun x => !ids.contains x)

/-- A selection made by hand: of elements of the page, beside what was selected or in its place. -/
def Picks (s : Session) (selection : List String) : Prop :=
  ∃ chosen ids, (chosen = [] ∨ chosen = s.selection) ∧
    (∀ id ∈ ids, s.draft.page.contains id = true) ∧ selection = addOnce chosen ids

/-- What a command can make of a session. -/
inductive Move (s : Session) : Command → Session → Prop
  | kept {command : Command} (hedit : command.edit? s = none) : Move s command s
  /-- An edit is carried out and the change recorded. -/
  | edited {command : Command} {edit : Draft.Edit} {effect : Draft.Effect} {after : Draft}
      (hedit : command.edit? s = some edit) (hrun : edit.run s.draft = .ok effect after)
      (selection : List String) (hleaves : Leaves s.selection effect selection) :
      Move s command ((s.withDraft after).selecting selection).changed
  /-- An edit fails; if the page is a tree, nothing but the source of ids can have moved then. -/
  | halted {command : Command} {edit : Draft.Edit} {failure : Failure} {after : Draft}
      (hedit : command.edit? s = some edit) (hrun : edit.run s.draft = .error failure after) :
      Move s command (s.withDraft after)
  | loaded {origin : Origin} {snapshot : Snapshot} {draft : Draft}
      (hread : origin.read s.draft.catalog = .ok snapshot)
      (hcheck : checkLoad s.draft.catalog snapshot = .ok ())
      (hdraft : Draft.ofPage s.draft.catalog s.draft.ids snapshot.page = .ok draft) :
      Move s (.load origin) (s.restored snapshot draft).changed
  /-- Undo and redo; the page stays what it was if the entry cannot be restored. -/
  | travelled {command : Command} {timeline : Timeline Snapshot} (ht : command.Travels)
      (hentries : timeline.entries = s.timeline.entries)
      (hlimit : timeline.limit = s.timeline.limit) :
      Move s command (stateOf (restore timeline.present { s with timeline := timeline }))
  | copied {id : String} {nodes : List Element} (hcopy : s.draft.copy id = .ok nodes) :
      Move s (.copy id) { s with clipboard := some nodes }
  | selected {command : Command} (hedit : command.edit? s = none) (selection : List String)
      (hpicks : s.Picks selection) : Move s command (s.selecting selection)
  | set {command : Command} {key : String} {value : Value} (hedit : command.edit? s = none)
      (h : Setting key value) : Move s command { s with viewport := s.viewport.insert key value }
  | generated {command : Command} (hedit : command.edit? s = none) (source : Source) :
      Move s command { s with lastSource := some source }

/-- A session in which only what is kept beside the page has changed. -/
structure Aside (s t : Session) : Prop where
  draft : t.draft = s.draft
  timeline : t.timeline = s.timeline
  openBatches : t.openBatches = s.openBatches
  changedInBatch : t.changedInBatch = s.changedInBatch
  clipboard : ∀ {nodes}, t.clipboard = some nodes →
    s.clipboard = some nodes ∨ ∃ id, s.draft.copy id = .ok nodes

/-- What has nothing to commit and does not travel leaves the page and the timeline alone. -/
theorem Move.aside {command : Command} (h : Move s command t) (hc : ¬ command.Commits s)
    (ht : ¬ command.Travels) : Aside s t := by
  cases h with
  | kept | selected | set | generated => exact ⟨rfl, rfl, rfl, rfl, Or.inl⟩
  | @copied id nodes hcopy =>
    refine ⟨rfl, rfl, rfl, rfl, ?_⟩
    rintro copied ⟨⟩
    exact Or.inr ⟨id, hcopy⟩
  | edited hedit | halted hedit => exact absurd (commits_of_edit hedit) hc
  | loaded => exact absurd trivial hc
  | travelled htravels => exact absurd htravels ht

/-! ## How a command ends -/

/-- What an edit is answered with: the id of the element it has added, and else of none. -/
def Answers : Draft.Effect → Reply → Prop
  | .added id, reply => reply = .id (some id)
  | _, reply => ∀ id, reply ≠ .id (some id)

/-- How a command can end. -/
inductive Outcome (s : Session) : Command → EStateM.Result Failure Session Reply → Prop
  /-- It is turned down before it comes to an edit. -/
  | declined {command : Command} (hedit : command.edit? s = none) (failure : Failure) :
      Outcome s command (.error failure s)
  | halted {command : Command} {edit : Draft.Edit} {failure : Failure} {after : Draft}
      (hedit : command.edit? s = some edit) (hrun : edit.run s.draft = .error failure after) :
      Outcome s command (.error failure (s.withDraft after))
  | edited {command : Command} {edit : Draft.Edit} {effect : Draft.Effect} {after : Draft}
      {reply : Reply} (hedit : command.edit? s = some edit)
      (hrun : edit.run s.draft = .ok effect after) (selection : List String)
      (hleaves : Leaves s.selection effect selection) (hanswers : Answers effect reply) :
      Outcome s command (.ok reply ((s.withDraft after).selecting selection).changed)
  | loaded {origin : Origin} {snapshot : Snapshot} {draft : Draft}
      (hread : origin.read s.draft.catalog = .ok snapshot)
      (hcheck : checkLoad s.draft.catalog snapshot = .ok ())
      (hdraft : Draft.ofPage s.draft.catalog s.draft.ids snapshot.page = .ok draft) :
      Outcome s (.load origin) (.ok .done (s.restored snapshot draft).changed)
  /-- Undo and redo, which are declined inside a batch. -/
  | travelled {command : Command} {timeline : Timeline Snapshot} (ht : command.Travels)
      (hclosed : s.inBatch = false) (hentries : timeline.entries = s.timeline.entries)
      (hlimit : timeline.limit = s.timeline.limit) :
      Outcome s command ((Reply.snapshot <$> travel timeline) s)
  /-- It has no change to commit. -/
  | beside {command : Command} {reply : Reply} {t : Session} (hc : ¬ command.Commits s)
      (ht : ¬ command.Travels) (hmove : Move s command t) (hreply : ∀ id, reply ≠ .id (some id)) :
      Outcome s command (.ok reply t)

theorem stateOf_travel (timeline : Timeline Snapshot) (s : Session) :
    stateOf (travel timeline s) =
      stateOf (restore timeline.present { s with timeline := timeline }) := by
  let there : Session := { s with timeline := timeline }
  show stateOf ((restore timeline.present >>= fun _ => pure timeline.present) there) =
    stateOf (restore timeline.present there)
  rcases restore_cases timeline.present there with ⟨failure, h⟩ | ⟨draft, -, h⟩
  · rw [bind_of_error h, h, stateOf, stateOf]
  · rw [bind_of_ok h, h]
    rfl

/-- A command moves the session however it ends. -/
theorem Outcome.move {command : Command} {result : EStateM.Result Failure Session Reply}
    (h : Outcome s command result) : Move s command (stateOf result) := by
  cases h with
  | declined hedit => exact .kept hedit
  | halted hedit hrun => exact .halted hedit hrun
  | edited hedit hrun selection hleaves => exact .edited hedit hrun selection hleaves
  | loaded hread hcheck hdraft => exact .loaded hread hcheck hdraft
  | travelled ht _ hentries hlimit =>
    rw [stateOf_map, stateOf_travel]
    exact .travelled ht hentries hlimit
  | beside _ _ hmove => exact hmove

/-! ### There are no other outcomes -/

section Parts

variable {command : Command} {reply : β → Reply}

/-- An edit, after which the selection is set and the change recorded. -/
theorem outcome_edit {edit : Draft.Edit} {action : Draft.Action α} {rest : α → Action β}
    {effect : α → Draft.Effect} (hedit : command.edit? s = some edit)
    (hrun : edit.run = effect <$> action) (selection : α → Session → List String)
    (answer : α → β)
    (hrest : ∀ a t, rest a t = .ok (answer a) (t.selecting (selection a t)).changed)
    (hleaves : ∀ a after, Leaves s.selection (effect a) (selection a (s.withDraft after)))
    (hanswers : ∀ a, Answers (effect a) (reply (answer a))) :
    Outcome s command ((reply <$> (onDraft action >>= rest)) s) := by
  cases h : action s.draft with
  | ok a after =>
    have hedited : edit.run s.draft = .ok (effect a) after := by
      rw [hrun]
      exact map_of_ok h effect
    have hsettled := (bind_of_ok (onDraft_of_ok h) rest).trans (hrest a _)
    rw [map_of_ok hsettled]
    exact .edited hedit hedited _ (hleaves a after) (hanswers a)
  | error failure after =>
    have hhalted : edit.run s.draft = .error failure after := by
      rw [hrun]
      exact map_of_error h effect
    rw [map_of_error (bind_of_error (onDraft_of_error h) rest)]
    exact .halted hedit hhalted

/-- A command that starts by looking at the session. -/
theorem outcome_get {f : Session → Action β} (h : Outcome s command ((reply <$> f s) s)) :
    Outcome s command ((reply <$> (get >>= f)) s) :=
  h

/-- A command that starts with a check. -/
theorem outcome_checked {result : Except Failure α} {f : α → Action β}
    (hno : ∀ {failure}, result = .error failure → command.edit? s = none)
    (hf : ∀ {a}, result = .ok a → Outcome s command ((reply <$> f a) s)) :
    Outcome s command ((reply <$> (lift result >>= f)) s) := by
  cases result with
  | error failure => exact .declined (hno rfl) failure
  | ok a => exact hf rfl

/-- A command that is refused in a batch. -/
theorem outcome_outside (name : String) {f : Unit → Action β} (hedit : command.edit? s = none)
    (hf : s.inBatch = false → Outcome s command ((reply <$> f ()) s)) :
    Outcome s command ((reply <$> (outsideBatch name >>= f)) s) := by
  cases hb : s.inBatch with
  | true =>
    have hno : outsideBatch name s = .error (.batchOpen name) s := by simp [outsideBatch, hb]
    rw [map_of_error (bind_of_error hno f)]
    exact .declined hedit _
  | false =>
    have hok : (outsideBatch name >>= f) s = f () s := by
      apply bind_of_ok
      simp [outsideBatch, hb]
    rw [map_of_eq hok]
    exact hf hb

end Parts

theorem outcome_load (s : Session) (origin : Origin) :
    Outcome s (.load origin) ((Command.load origin).run s) := by
  rw [Command.run, silently]
  refine outcome_get (outcome_checked (fun _ => rfl) fun {snapshot} hread => ?_)
  refine outcome_get (outcome_checked (fun _ => rfl) fun hcheck => ?_)
  show Outcome s _ (((fun _ => Reply.done) <$> (restore snapshot >>= fun _ => modify changed)) s)
  -- All checks have been passed, so what can still fail is the source of ids.
  rcases restore_cases snapshot s with ⟨failure, h⟩ | ⟨draft, hdraft, h⟩
  · rw [map_of_error (bind_of_error h _)]
    exact .declined rfl failure
  · have hok : (restore snapshot >>= fun _ => modify changed) s =
        .ok () (s.restored snapshot draft).changed := bind_of_ok h _
    rw [map_of_ok hok]
    exact .loaded hread hcheck hdraft

theorem outcome_clear (s : Session) : Outcome s .clear (Command.clear.run s) := by
  rw [Command.run, silently]
  refine outcome_get ?_
  cases hempty : s.draft.page.isEmpty with
  | true =>
    refine .beside (fun hc => ?_) id (.kept (by rw [Command.edit?, hempty]; rfl)) nofun
    cases hempty.symm.trans hc
  | false =>
    have hedit : Command.clear.edit? s = some .clear := by
      rw [Command.edit?, hempty]
      rfl
    have hrun : Draft.Edit.clear.run s.draft =
        .ok (.removed s.draft.page.elements.keys) { s.draft with page := {} } := rfl
    exact .edited hedit hrun [] (List.nil_sublist _) nofun

theorem outcome_select (s : Session) (ids : List String) (additive : Bool) :
    Outcome s (.select ids additive) ((Command.select ids additive).run s) := by
  rw [Command.run, silently]
  cases hfind : ids.find? fun id => !s.draft.page.contains id with
  | some missing =>
    have hno : Session.select ids additive s = .error (.rejected (.elementMissing missing)) s := by
      simp only [Session.select, hfind]
    rw [map_of_error hno]
    exact .declined rfl _
  | none =>
    have hok : Session.select ids additive s =
        .ok () (s.selecting (addOnce (if additive then s.selection else []) ids)) := by
      simp only [Session.select, hfind]
      rfl
    have hstored : ∀ id ∈ ids, s.draft.page.contains id = true := by
      simpa using List.find?_eq_none.1 hfind
    rw [map_of_ok hok]
    refine .beside id id (.selected rfl _ ⟨_, ids, ?_, hstored, rfl⟩) nofun
    cases additive with
    | true => exact .inr rfl
    | false => exact .inl rfl

/-- Every command comes to one of the outcomes; this is the only proof that opens them all. -/
theorem Command.run_outcome (s : Session) (command : Command) :
    Outcome s command (command.run s) := by
  cases command with
  | insert parent kind index props style =>
    rw [Command.run]
    exact outcome_edit rfl rfl (fun id _ => [id]) id (fun _ _ => rfl) (fun _ _ => rfl) fun _ => rfl
  | move | updateProps | updateStyle =>
    rw [Command.run, silently]
    exact outcome_edit rfl rfl (fun _ t => t.selection) (fun _ => ()) (fun _ _ => rfl)
      (fun _ _ => rfl) fun _ => nofun
  | remove id =>
    rw [Command.run]
    exact outcome_edit rfl rfl (fun removed t => t.selection.filter fun x => !removed.contains x)
      (fun removed => removed) (fun _ _ => rfl) (fun _ _ => .refl _) fun _ => nofun
  -- A copy is planned first; an edit is made of the plan.
  | duplicate id =>
    rw [Command.run]
    refine outcome_get (outcome_checked (fun hplan => ?_) fun hplan => ?_)
    · rw [Command.edit?, hplan]
    exact outcome_edit (edit?_duplicate hplan) rfl (fun new _ => [new]) (fun new => new)
      (fun _ _ => rfl) (fun _ _ => rfl) fun _ => rfl
  | copy source =>
    rw [Command.run, silently]
    refine outcome_get (outcome_checked (fun _ => rfl) fun hcopy => ?_)
    exact .beside id id (.copied hcopy) nofun
  | paste parent index =>
    rw [Command.run]
    refine outcome_get ?_
    cases hc : s.clipboard with
    -- There is nothing to paste, and so nothing to commit either.
    | none => exact .beside (fun hno => hno hc) id (.kept (by rw [Command.edit?, hc]; rfl)) nofun
    | some nodes =>
      exact outcome_edit (edit?_paste hc parent index) rfl (fun new _ => [new]) some
        (fun _ _ => rfl) (fun _ _ => rfl) fun _ => rfl
  | clear => exact outcome_clear s
  | load origin => exact outcome_load s origin
  | undo =>
    rw [Command.run]
    refine outcome_outside "undo" rfl fun hclosed => outcome_get ?_
    exact .travelled trivial hclosed s.timeline.entries_undo s.timeline.limit_undo
  | redo =>
    rw [Command.run]
    refine outcome_outside "redo" rfl fun hclosed => outcome_get ?_
    exact .travelled trivial hclosed s.timeline.entries_redo s.timeline.limit_redo
  | select ids additive => exact outcome_select s ids additive
  | clearSelection => exact .beside id id (.selected rfl [] ⟨[], [], .inl rfl, by simp, rfl⟩) nofun
  | setViewport name =>
    rw [Command.run, silently, Session.setViewport]
    split
    · rename_i hname
      exact .beside id id (.set rfl (.name (List.contains_iff_mem.1 hname))) nofun
    · exact .declined rfl _
  | setZoom percent =>
    rw [Command.run, silently]
    refine outcome_checked (fun _ => rfl) fun {n} _ => .beside id id (.set rfl (.zoom ?_ ?_)) nofun
    -- Whatever number is given is cut down to the bounds.
    · exact Int.le_max_left _ _
    · exact Int.max_le.2 ⟨by decide, Int.min_le_left _ _⟩
  | generate options =>
    rw [Command.run]
    refine outcome_get (outcome_checked (fun _ => rfl) fun _ => ?_)
    exact .beside id id (.generated rfl _) nofun
  | save =>
    rw [Command.run]
    refine outcome_get (outcome_checked (fun _ => rfl) fun _ => ?_)
    refine outcome_checked (fun _ => rfl) fun _ => ?_
    exact .beside id id (.kept rfl) nofun
  | entries => exact .beside id id (.kept rfl) nofun
  | ask query =>
    rw [Command.run, bind_of_ok (get_eq s)]
    cases s.draft.answer query with
    | error failure => exact .declined rfl failure
    | ok finding => exact .beside id id (.kept rfl) nofun

theorem Command.run_moves (s : Session) (command : Command) :
    Move s command (stateOf (command.run s)) :=
  (command.run_outcome s).move

/-! ## Edits among moves -/

/-- A command that comes to an edit does to the draft what the edit does. -/
theorem Move.draft_eq {command : Command} {edit : Draft.Edit} (h : Move s command t)
    (hedit : command.edit? s = some edit) : t.draft = stateOf (edit.run s.draft) := by
  cases h with
  | edited hedit' hrun selection =>
    cases hedit.symm.trans hedit'
    rw [hrun, draft_changed]
    rfl
  | halted hedit' hrun =>
    cases hedit.symm.trans hedit'
    rw [hrun]
    rfl
  | travelled ht _ _ => cases command <;> first | exact ht.elim | cases hedit
  | kept hnone | selected hnone | set hnone | generated hnone => cases hnone.symm.trans hedit
  | loaded | copied => cases hedit

theorem copy_of_planDuplicate {draft : Draft} {id : String} {plan : Duplicate}
    (h : planDuplicate draft id = .ok plan) : draft.copy id = .ok plan.nodes := by
  unfold planDuplicate at h
  cases hp : draft.page.parentOf id with
  | error failure => simp [hp] at h
  | ok parent =>
    cases parent with
    | none => simp [hp] at h
    | some parent =>
      cases hc : draft.copy id with
      | error failure => simp [hp, hc] at h
      | ok nodes =>
        cases hi : parent.children.idxOf? id with
        | none => simp [hp, hc, hi] at h
        | some index =>
          simp only [hp, hc, hi, Results.ok_bind, Results.pure_eq] at h
          cases h
          rfl

/-- A command attaches what is on the clipboard or what it has just copied. -/
theorem attached_of_edit? {command : Command} {parent : Option String} {nodes : List Element}
    {index : Option Int} (h : command.edit? s = some (.attach parent nodes index)) :
    s.clipboard = some nodes ∨ ∃ id, s.draft.copy id = .ok nodes := by
  cases command
  case duplicate id =>
    rw [Command.edit?] at h
    split at h
    · rename_i plan hplan
      cases h
      exact Or.inr ⟨id, copy_of_planDuplicate hplan⟩
    · cases h
  case paste parent index =>
    obtain ⟨copied, hcopied, heq⟩ := Option.map_eq_some_iff.1 h
    cases heq
    exact Or.inl hcopied
  case clear =>
    rw [Command.edit?] at h
    split at h <;> cases h
  all_goals cases h

/-! ## How a command that comes to an edit ends -/

/-- A result goes with an edit: there is one if the edit is carried out, and if it fails the
failure is passed on. -/
def GoesWith (s : Session) (edit : Draft.Edit) (r : EStateM.Result Failure Session α) : Prop :=
  match edit.run s.draft with
  | .ok _ _ => ∃ a t, r = .ok a t
  | .error failure after => r = .error failure (s.withDraft after)

theorem Command.run_goesWith {command : Command} {edit : Draft.Edit}
    (hedit : command.edit? s = some edit) : GoesWith s edit (command.run s) := by
  have houtcome := command.run_outcome s
  generalize command.run s = result at houtcome ⊢
  unfold GoesWith
  cases houtcome with
  | declined hno => cases hno.symm.trans hedit
  | halted hedit' hrun =>
    cases hedit.symm.trans hedit'
    rw [hrun]
  | edited hedit' hrun =>
    cases hedit.symm.trans hedit'
    rw [hrun]
    exact ⟨_, _, rfl⟩
  | loaded => cases hedit
  | travelled ht => cases (ht.edit?_eq s).symm.trans hedit
  | beside hc => exact absurd (commits_of_edit hedit) hc

theorem run_load {origin : Origin} {snapshot : Snapshot} {draft : Draft}
    (hread : origin.read s.draft.catalog = .ok snapshot)
    (hcheck : checkLoad s.draft.catalog snapshot = .ok ())
    (hdraft : Draft.ofPage s.draft.catalog s.draft.ids snapshot.page = .ok draft) :
    (Command.load origin).run s = .ok .done (s.restored snapshot draft).changed := by
  apply map_of_ok
  exact (bind_of_ok (lift_of_ok hread s) _).trans (load_of_checks hcheck hdraft)

/-- A snapshot that is loaded passes the checks, a new draft is made of it, and the session goes on
with what the snapshot shows. -/
theorem loaded_of_ok {origin : Origin} {reply : Reply}
    (h : (Command.load origin).run s = .ok reply t) :
    ∃ snapshot draft, origin.read s.draft.catalog = .ok snapshot ∧
      checkLoad s.draft.catalog snapshot = .ok () ∧
      Draft.ofPage s.draft.catalog s.draft.ids snapshot.page = .ok draft ∧
      t = (s.restored snapshot draft).changed := by
  have houtcome := (Command.load origin).run_outcome s
  rw [h] at houtcome
  generalize hresult : EStateM.Result.ok reply t = result at houtcome
  cases houtcome with
  | declined => cases hresult
  | halted hedit | edited hedit => cases hedit
  | loaded hread hcheck hdraft =>
    cases hresult
    exact ⟨_, _, hread, hcheck, hdraft, rfl⟩
  | travelled ht => exact ht.elim
  | beside hc => exact absurd trivial hc

theorem run_copy {id : String} {nodes : List Element} (hcopy : s.draft.copy id = .ok nodes) :
    (Command.copy id).run s = .ok .done { s with clipboard := some nodes } := by
  apply map_of_ok
  exact bind_of_ok (lift_of_ok hcopy s) _

/-! ## New elements -/

theorem created_eq {command : Command} {edit : Draft.Edit} {effect : Draft.Effect} {after : Draft}
    (hedit : command.edit? s = some edit) (hrun : edit.run s.draft = .ok effect after) :
    command.created s = edit.drawn s.draft := by
  rw [Command.created, hedit]
  simp only [hrun]

theorem exists_edit_of_created {command : Command} {id : String} (h : id ∈ command.created s) :
    ∃ edit effect after, command.edit? s = some edit ∧ edit.run s.draft = .ok effect after ∧
      command.created s = edit.drawn s.draft := by
  cases hedit : command.edit? s with
  | none =>
    rw [Command.created, hedit] at h
    cases h
  | some edit =>
    cases hrun : edit.run s.draft with
    | ok effect after => exact ⟨edit, effect, after, rfl, hrun, created_eq hedit hrun⟩
    | error failure after =>
      rw [Command.created, hedit] at h
      simp [hrun] at h

/-- The id that is answered is that of a new element. -/
theorem Command.mem_created_of_reply {command : Command} {id : String}
    (h : command.run s = .ok (.id (some id)) t) : id ∈ command.created s := by
  have houtcome := command.run_outcome s
  rw [h] at houtcome
  generalize hresult : EStateM.Result.ok (Reply.id (some id)) t = result at houtcome
  cases houtcome with
  | declined | halted => cases hresult
  | @edited _ edit effect after reply hedit hrun selection _ hanswers =>
    cases hresult
    rw [created_eq hedit hrun]
    cases effect with
    | added new =>
      cases hanswers
      exact Draft.Edit.mem_drawn_of_added hrun
    | changed | removed => exact absurd rfl (hanswers id)
  | loaded => cases hresult
  | travelled =>
    obtain ⟨_, -, heq⟩ := exists_of_map_ok hresult.symm
    cases heq
  | beside _ _ _ hreply =>
    cases hresult
    exact absurd rfl (hreply id)

end PageBuilder.Session
