import Mathlib.Data.List.Induction
import PageBuilder.Proofs.Session.Records

/-!
# The history of a run

A run is a sequence of events: commands, and batches opening and closing.  `events` lists those of a
run in the order in which they happen, at whatever depth of batches, so that one can speak of what
came before an event.

`History` is the same seen from behind: the sessions that can be reached, each with what has
happened up to it.  It asks less than a run does, only that a batch that closes has been opened
before, and every part of a run up to some event is one (`history_of_events`).  So what holds of
every reached session is proved by induction over its history, with one case for an event.  For a
property that does not look at the history itself this is done here, once (`History.lasting`): what
it has to be shown of are single moves.
-/

namespace PageBuilder.Session

open Results

variable {start s t : Session}

/-! ## Events -/

/-- Something that happens in a run. -/
inductive Event
  /-- A command is run. -/
  | call (s : Session) (command : Command)
  /-- A batch is opened. -/
  | enter (s : Session)
  /-- The batch that was opened in a session ends with a result. -/
  | leave (opened : Session) (result : EStateM.Result Failure Session Reply)

namespace Event

def before : Event → Session
  | .call s _ => s
  | .enter s => s
  | .leave _ result => stateOf result

def after : Event → Session
  | .call s command => stateOf (command.run s)
  | .enter s => s.enter
  | .leave opened result => stateOf (opened.leave result)

/-- The ids that the event gives to new elements. -/
def created : Event → List String
  | .call s command => command.created s
  | _ => []

/-- The snapshots that the event is given to load. -/
def given : Event → List Snapshot
  | .call _ (.load (.snapshot snapshot)) => [snapshot]
  | _ => []

/-- The event loads a snapshot. -/
def Loads (snapshot : Snapshot) : Event → Prop
  | .call s (.load origin) => origin.read s.draft.catalog = .ok snapshot ∧
      ∃ reply t, (Command.load origin).run s = .ok reply t
  | _ => False

/-- The event closes a batch only if that was opened before. -/
def Closes (past : List Event) : Event → Prop
  | .leave opened _ => .enter opened ∈ past
  | _ => True

end Event

/-! ## Runs -/

mutual

/-- What happens when a step is run. -/
def Step.events (s : Session) : Step → List Event
  | .command command _ => [.call s command]
  | .batch steps abandon _ => .enter s ::
      (events s.enter steps ++ [.leave s (conclude abandon (runSteps s.enter steps).result)])

/-- What happens when steps are run, up to the first that passes a failure on. -/
def events (s : Session) : List Step → List Event
  | [] => []
  | step :: rest =>
    let report := step.run s
    match report.passedOn step.escalates with
    | some _ => step.events s
    | none => step.events s ++ events report.after rest

end

/-- The session that a history has led to. -/
def reached (start : Session) (past : List Event) : Session :=
  match past.getLast? with
  | none => start
  | some event => event.after

theorem reached_concat (start : Session) (past : List Event) (event : Event) :
    reached start (past ++ [event]) = event.after := by
  simp [reached]

theorem reached_cons (start : Session) (event : Event) (later : List Event) :
    reached start (event :: later) = reached event.after later := by
  cases later with
  | nil => rfl
  | cons next rest =>
    rw [reached, reached, List.getLast?_cons_cons,
      List.getLast?_eq_some_getLast (List.cons_ne_nil next rest)]

/-- A session with everything that has happened up to it. -/
inductive History (start : Session) : List Event → Session → Prop
  | start : History start [] start
  | next {past : List Event} {event : Event} (h : History start past event.before)
      (hclose : event.Closes past) : History start (past ++ [event]) event.after

theorem History.reached_eq {past : List Event} (h : History start past s) :
    reached start past = s := by
  cases h with
  | start => rfl
  | next h hclose => simp [reached]

/-- The history of an event, and of the session after it. -/
theorem History.split {earlier : List Event} {event : Event}
    (h : History start (earlier ++ [event]) s) :
    History start earlier event.before ∧ event.Closes earlier ∧ s = event.after := by
  generalize hpast : earlier ++ [event] = past at h
  cases h with
  | start => simp at hpast
  | next h hclose =>
    obtain ⟨rfl, heq⟩ := List.append_inj' hpast rfl
    cases heq
    exact ⟨h, hclose, rfl⟩

theorem History.earlier {earlier later : List Event} (h : History start (earlier ++ later) s) :
    History start earlier (reached start earlier) := by
  induction later using List.reverseRecOn generalizing s with
  | nil =>
    rw [List.append_nil] at h
    rwa [h.reached_eq]
  | append_singleton later event ih =>
    rw [← List.append_assoc] at h
    exact ih h.split.1

theorem events_command (s : Session) (command : Command) (rest : List Step) :
    events s (.command command false :: rest) =
      .call s command :: events (stateOf (command.run s)) rest := by
  rw [events, passedOn_eq_none rfl, Step.events, Step.run, after_ofResult_eq]
  rfl

theorem events_of_ok {command : Command} {reply : Reply} {t : Session}
    (h : command.run s = .ok reply t) (rest : List Step) :
    events s (.command command false :: rest) = .call s command :: events t rest := by
  rw [events_command, h]
  rfl

/-- What is reached after a call is reached from where the call has led. -/
theorem reached_of_ok {command : Command} {reply : Reply} {t : Session}
    (h : command.run s = .ok reply t) (later : List Event) :
    reached s (.call s command :: later) = reached t later := by
  have hafter : (Event.call s command).after = t := congrArg stateOf h
  rw [reached_cons, hafter]

theorem exists_call_of_mem {commands : List Command} {event : Event}
    (h : event ∈ events s (commands.map (.command · false))) :
    ∃ u, ∃ command ∈ commands, event = .call u command := by
  induction commands generalizing s with
  | nil => simp [events] at h
  | cons command rest ih =>
    rw [List.map_cons, events_command] at h
    rcases List.mem_cons.1 h with rfl | h
    · exact ⟨s, command, List.mem_cons_self, rfl⟩
    · obtain ⟨u, other, hm, rfl⟩ := ih h
      exact ⟨u, other, List.mem_cons_of_mem _ hm, rfl⟩

/-! ## Invariants -/

/-- A property of sessions that events keep as long as they are `allowed`. -/
structure Lasting (allowed : Event → Prop) (good : Session → Prop) : Prop where
  move : ∀ {s t : Session} {command : Command}, allowed (.call s command) → good s →
    Move s command t → good t
  enter : ∀ {s : Session}, good s → good s.enter
  /-- The count of open batches does not matter. -/
  closed : ∀ {s : Session} (n : Nat), good s → good { s with openBatches := n }
  commit : ∀ {s : Session}, good s → good s.commit
  /-- What was shown when a batch was opened may come back. -/
  restore : ∀ {s u : Session}, good s → good u → good (stateOf (restore s.snapshot u))

/-- The sessions in which batches were opened come along, since their snapshots may come back. -/
theorem History.lasting {allowed : Event → Prop} {good : Session → Prop} {past : List Event}
    (h : History start past s) (hgood : Lasting allowed good) (hstart : good start)
    (hall : ∀ event ∈ past, allowed event) : good s ∧ ∀ {u}, .enter u ∈ past → good u := by
  induction h with
  | start => exact ⟨hstart, by simp⟩
  | @next past event h hclose ih =>
    obtain ⟨hbefore, hopened⟩ := ih fun e he => hall e (List.mem_append_left _ he)
    refine ⟨?_, ?_⟩
    · cases event with
      | call s command =>
        exact hgood.move (hall _ (List.mem_append_right _ List.mem_cons_self)) hbefore
          (command.run_moves s)
      | enter s => exact hgood.enter hbefore
      | leave opened result =>
        exact stateOf_leave (fun n => hgood.closed n hbefore) hgood.commit fun hu =>
          hgood.restore (hopened hclose) hu
    · intro u hu
      rcases List.mem_append.1 hu with hu | hu
      · exact hopened hu
      · cases List.mem_singleton.1 hu
        exact hbefore

/-! ## Histories of runs -/

/-- A session starts with a draft of the page it is given, and with one entry. -/
theorem exists_of_start {catalog : Catalog} {initial : Snapshot} {limit : Option Int}
    {preferences : Preferences}
    (h : Session.start catalog initial limit preferences = .ok start) :
    ∃ draft, Draft.ofPage catalog {} initial.page = .ok draft ∧ start = {
      draft := draft
      timeline := .start initial (limit.or preferences.timelineLimit)
      selection := initial.selection
      viewport := initial.viewport
      preferences := preferences } := by
  unfold Session.start at h
  split at h
  · cases h
  · rename_i draft hdraft
    cases h
    exact ⟨draft, hdraft, rfl⟩

mutual

theorem Step.history {past : List Event} {s : Session} (h : History start past s) :
    ∀ step : Step, History start (past ++ step.events s) (step.run s).after
  | .command command _ => by
    rw [Step.events, Step.run, after_ofResult_eq]
    exact @History.next start past (.call s command) h trivial
  | .batch steps abandon _ => by
    have hopened : History start (past ++ [.enter s]) s.enter :=
      @History.next start past (.enter s) h trivial
    have hsteps := history_runSteps hopened steps
    rw [← stateOf_conclude abandon] at hsteps
    have hclosed := @History.next start _ (.leave s _) hsteps (by simp [Event.Closes])
    rw [Step.events, Step.run, after_ofResult_eq]
    simpa [Event.after] using hclosed

theorem history_runSteps {past : List Event} {s : Session} (h : History start past s) :
    ∀ steps : List Step,
      History start (past ++ events s steps) (stateOf (runSteps s steps).result)
  | [] => by
    rw [events, List.append_nil, runSteps]
    exact h
  | step :: rest => by
    have hstep := Step.history h step
    rw [events, runSteps]
    cases (step.run s).passedOn step.escalates with
    | some failure => exact hstep
    | none =>
      have hrest := history_runSteps hstep rest
      rw [List.append_assoc] at hrest
      exact hrest

end

/-- Every part of a run up to some event is the history of the session it has led to. -/
theorem history_of_events {steps : List Step} {past later : List Event}
    (h : events start steps = past ++ later) : History start past (reached start past) := by
  have hrun := history_runSteps (History.start : History start [] start) steps
  rw [List.nil_append, h] at hrun
  exact hrun.earlier

end PageBuilder.Session
