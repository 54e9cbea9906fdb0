import PageBuilder.Proofs.Draft.Faithful
import PageBuilder.Proofs.Session.Ids
import PageBuilder.Proofs.Session.Vocabulary

/-!
# The clipboard

What has been copied stays on the clipboard, whatever becomes of the page it comes from: nothing but
another copy changes the clipboard, no load and no undo, and no batch that is given up either
(`History.clipboard_eq`).  So a paste puts in what was there when it was copied, as a faithful copy
(`Draft.attach_copies`).  It can be pasted again and again; no two of the pastes share an id, since
no two events of a run make elements under the same one (`History.pairwise_created`).
-/

namespace PageBuilder.Session

open Page Results

variable {start s t : Session} {id : String} {nodes : List Element}

/-! ## What is on the clipboard -/

/-- The event puts a copy on the clipboard. -/
def Event.Copies : Event → Prop
  | .call s (.copy id) => ∃ nodes, s.draft.copy id = .ok nodes
  | _ => False

theorem clipboard_restore (snapshot : Snapshot) (s : Session) :
    (stateOf (restore snapshot s)).clipboard = s.clipboard := by
  rcases restore_cases snapshot s with ⟨failure, h⟩ | ⟨draft, -, h⟩ <;> rw [h] <;> rfl

theorem Move.clipboard_eq {command : Command} (h : Move s command t)
    (hcopies : ¬ (Event.call s command).Copies) : t.clipboard = s.clipboard := by
  cases h with
  | edited | loaded => exact clipboard_changed _
  | travelled => exact clipboard_restore ..
  | copied hcopy => exact absurd ⟨_, hcopy⟩ hcopies
  | kept | halted | selected | set | generated => rfl

theorem Event.clipboard_eq {event : Event} (h : ¬ event.Copies) :
    event.after.clipboard = event.before.clipboard := by
  cases event with
  | call s command => exact (command.run_moves s).clipboard_eq h
  | enter s =>
    show s.enter.clipboard = s.clipboard
    unfold Session.enter
    split <;> rfl
  | leave opened result =>
    apply @stateOf_leave _ fun t => t.clipboard = (stateOf result).clipboard
    case hclosed => exact fun _ => rfl
    case hcommit => exact fun h => h
    case hrestore => exact fun h => (clipboard_restore ..).trans h

theorem History.clipboard_eq {past later : List Event} (h : History start (past ++ later) s)
    (hlater : ∀ event ∈ later, ¬ event.Copies) :
    s.clipboard = (reached start past).clipboard := by
  induction later using List.reverseRecOn generalizing s with
  | nil =>
    rw [List.append_nil] at h
    rw [h.reached_eq]
  | append_singleton later event ih =>
    rw [← List.append_assoc] at h
    obtain ⟨hbefore, -, rfl⟩ := h.split
    have hevent := Event.clipboard_eq (hlater event (by simp))
    exact hevent.trans (ih hbefore fun e he => hlater e (List.mem_append_left _ he))

/-! ## Pasting -/

/-- A paste attaches what is on the clipboard and selects it. -/
theorem run_paste (hc : t.clipboard = some nodes) (parent : Option String) (index : Option Int) :
    (Command.paste parent index).run t =
      match Draft.attach (parent.or t.draft.page.root) nodes index t.draft with
      | .ok new after => .ok (.id (some new)) ((t.withDraft after).selecting [new]).changed
      | .error failure after => .error failure (t.withDraft after) := by
  cases h : Draft.attach (parent.or t.draft.page.root) nodes index t.draft with
  | ok new after =>
    apply map_of_ok
    rw [Session.paste, bind_of_ok (get_eq t), hc]
    exact bind_of_ok (onDraft_of_ok h) _
  | error failure after =>
    apply map_of_error
    rw [Session.paste, bind_of_ok (get_eq t), hc]
    exact bind_of_error (onDraft_of_error h) _

theorem paste_accepts_iff (hc : t.clipboard = some nodes) {parent : Option String}
    {index : Option Int} : (∃ reply u, (Command.paste parent index).run t = .ok reply u) ↔
      t.draft.Accepts (Draft.attach (parent.or t.draft.page.root) nodes index) := by
  rw [run_paste hc, Draft.Accepts]
  cases Draft.attach (parent.or t.draft.page.root) nodes index t.draft <;> simp

/-- A paste that answers with a new element, which with all below it is a copy of what a page has at
and below an element. -/
def Event.Pastes (source : Page) (id : String) (name : String → String) : Event → Prop
  | .call t (.paste parent index) => ∃ u, (Command.paste parent index).run t =
        .ok (.id (some (name id))) u ∧ u.selection = [name id] ∧
      u.draft.page.WellFormed u.draft.catalog ∧
      source.CopiedInto id name t.draft.page (parent.or t.draft.page.root) index u.draft.page
  | _ => False

/-! ## Pastes do not share ids -/

theorem Event.Pastes.mem_created {event : Event} {source : Page} {name : String → String}
    (h : event.Pastes source id name) (hl : source.Linked) {e : Element}
    (he : source.get? id = some e) {x : String} (hr : source.Reaches id x) :
    name x ∈ event.created := by
  cases event with
  | enter | leave => exact h.elim
  | call t command =>
    cases command
    case paste parent index =>
      obtain ⟨u, hrun, -, -, hcopied⟩ := h
      obtain ⟨f, hf⟩ := hl.stored_of_reaches hr ⟨e, he⟩
      have hmove := (Command.paste parent index).run_moves t
      rw [hrun] at hmove
      have hin := contains_iff_get?.2 ⟨_, hcopied.copied hr hf⟩
      refine (hmove.contains_cases (fun hb => hb) hin).resolve_left fun hold => ?_
      obtain ⟨g, hg⟩ := contains_iff_get?.1 hold
      exact absurd ((hcopied.fresh hr).symm.trans hg) (by simp)
    all_goals exact h.elim

theorem History.pairwise_created {past : List Event} (h : History start past s)
    (hstart : AheadOf start.draft.ids start) :
    past.Pairwise fun event later => ∀ id ∈ event.created, id ∉ later.created := by
  induction h with
  | start => exact .nil
  | @next past event h hclose ih =>
    have hunused := h.unused hstart
    refine List.pairwise_append.2 ⟨ih, List.pairwise_singleton .., fun e he later hm id hid => ?_⟩
    cases List.mem_singleton.1 hm
    exact fun hid' => hunused.created e he id hid _ (Event.handedOut_of_created hid')

/-! ## Pastes are faithful -/

section Run

variable {catalog : Catalog} {initial : Snapshot} {limit : Option Int} {preferences : Preferences}
  {steps : List Step} {past later : List Event} {e : Element}

/-- Until something else is copied, a paste goes by the page that was copied from. -/
theorem paste_of_run (hstart : Session.start catalog initial limit preferences = .ok start)
    {between rest : List Event} {parent : Option String} {index : Option Int}
    (hevents : events start steps =
      past ++ .call s (.copy id) :: (between ++ .call t (.paste parent index) :: rest))
    (hbetween : ∀ event ∈ between, ¬ event.Copies)
    (hs : s.draft.page.WellFormed s.draft.catalog) (htexts : s.draft.page.TextStyled)
    (he : s.draft.page.get? id = some e) (hcopy : s.draft.copy id = .ok nodes)
    (ht : t.draft.page.WellFormed t.draft.catalog)
    (hhost : t.draft.page.Hosts t.draft.catalog (parent.or t.draft.page.root)) :
    ((∃ reply u, (Command.paste parent index).run t = .ok reply u) ↔
      KnownBelow s.draft.catalog s.draft.page id ∧
        t.draft.ids.exhausted? nodes.length = none) ∧
    ((∃ reply u, (Command.paste parent index).run t = .ok reply u) →
      ∃ name, (Event.call t (.paste parent index)).Pastes s.draft.page id name) := by
  -- The history up to the paste, which is that of the copy and what comes between.
  have hpaste : events start steps =
      ((past ++ [.call s (.copy id)]) ++ between ++ [.call t (.paste parent index)]) ++ rest := by
    simp [hevents]
  have hbefore := (history_of_events hpaste).split.1
  have hcopied := hbefore.earlier.split.1
  have hs' := (hcopied.lasting (lasting_catalog catalog) (catalog_start hstart)
    fun _ _ => trivial).1
  have ht' := (hbefore.lasting (lasting_catalog catalog) (catalog_start hstart)
    fun _ _ => trivial).1
  have hclipboard : t.clipboard = some nodes := by
    refine (hbefore.clipboard_eq hbetween).trans ?_
    rw [reached_concat]
    show (stateOf ((Command.copy id).run s)).clipboard = some nodes
    rw [run_copy hcopy]
    rfl
  have ha : t.draft.ids.Ahead t.draft.page :=
    (hbefore.unused (aheadOf_start hstart).1).present _ (Or.inl rfl)
  obtain ⟨haccepts, hattached⟩ :=
    @Draft.attach_copies s.draft t.draft id (parent.or t.draft.page.root) index nodes e hs htexts he
      ht ha (ht'.trans hs'.symm) hhost hcopy
  refine ⟨(paste_accepts_iff hclipboard).trans haccepts, fun hok => ?_⟩
  obtain ⟨new, after, hrun⟩ := (paste_accepts_iff hclipboard).1 hok
  obtain ⟨hcatalog, -, hwell, name, rfl, hinto⟩ := hattached hrun
  rw [← hcatalog] at hwell
  refine ⟨name, ((t.withDraft after).selecting [name id]).changed, ?_, selection_changed _, ?_, ?_⟩
  · rw [run_paste hclipboard, hrun]
  · rw [draft_changed]
    exact hwell
  · rw [draft_changed]
    exact hinto

theorem pastes_disjoint (hstart : Session.start catalog initial limit preferences = .ok start)
    (hevents : events start steps = past ++ later) {source : Page} (hl : source.Linked)
    (he : source.get? id = some e) :
    later.Pairwise fun first second => ∀ {name name' : String → String},
      first.Pastes source id name → second.Pastes source id name' →
        ∀ {x y}, source.Reaches id x → source.Reaches id y → name x ≠ name' y := by
  have hall := (history_of_events (hevents.trans (List.append_nil _).symm)).pairwise_created
    (aheadOf_start hstart).1
  refine (List.pairwise_append.1 hall).2.1.imp fun hapart name name' hfirst hsecond x y hx hy => ?_
  intro heq
  exact hapart _ (hfirst.mem_created hl he hx) (heq ▸ hsecond.mem_created hl he hy)

end Run

/-- A copy of an element of a well-formed page is let into any other one of the same catalog exactly
if all kinds at and below the element are known and there are numbers left to be written for as many
ids, and then it is a faithful copy under new ids.  In a run this is so of every paste until
something else is copied, as of the page that was copied from, and no two pastes share an id. -/
theorem copies_are_faithful :
    (∀ {source target : Draft} {id : String} {parent : Option String} {index : Option Int}
      {e : Element}, source.page.WellFormed source.catalog → source.page.TextStyled →
      source.page.get? id = some e → target.page.WellFormed target.catalog →
      target.ids.Ahead target.page → target.catalog = source.catalog →
      target.page.Hosts target.catalog parent →
      ∃ nodes, source.copy id = .ok nodes ∧
        (target.Accepts (Draft.attach parent nodes index) ↔
          KnownBelow source.catalog source.page id ∧
            target.ids.exhausted? nodes.length = none) ∧
        ∀ {new after}, Draft.attach parent nodes index target = .ok new after →
          after.catalog = target.catalog ∧ after.ids.Ahead after.page ∧
          after.page.WellFormed target.catalog ∧
          ∃ name, name id = new ∧
            source.page.CopiedInto id name target.page parent index after.page) ∧
    ∀ {catalog initial limit preferences start steps past later s id e},
      Session.start catalog initial limit preferences = .ok start →
      events start steps = past ++ .call s (.copy id) :: later →
      s.draft.page.WellFormed s.draft.catalog → s.draft.page.TextStyled →
      s.draft.page.get? id = some e → ∃ nodes, s.draft.copy id = .ok nodes ∧
      (∀ {between t parent index rest}, later = between ++ .call t (.paste parent index) :: rest →
        (∀ event ∈ between, ¬ event.Copies) → t.draft.page.WellFormed t.draft.catalog →
        t.draft.page.Hosts t.draft.catalog (parent.or t.draft.page.root) →
        ((∃ reply u, (Command.paste parent index).run t = .ok reply u) ↔
          KnownBelow s.draft.catalog s.draft.page id ∧
            t.draft.ids.exhausted? nodes.length = none) ∧
        ((∃ reply u, (Command.paste parent index).run t = .ok reply u) →
          ∃ name, (Event.call t (.paste parent index)).Pastes s.draft.page id name)) ∧
      later.Pairwise fun first second => ∀ {name name' : String → String},
        first.Pastes s.draft.page id name → second.Pastes s.draft.page id name' →
          ∀ {x y}, s.draft.page.Reaches id x → s.draft.page.Reaches id y → name x ≠ name' y := by
  refine ⟨?_, ?_⟩
  · intro source target id parent index e hsource htexts he htarget ha hcatalog hhost
    obtain ⟨nodes, hcopy, -⟩ := Draft.copy_eq hsource.isTree.linked hsource.keyed he
    exact ⟨nodes, hcopy, Draft.attach_copies hsource htexts he htarget ha hcatalog hhost hcopy⟩
  · intro catalog initial limit preferences start steps past later s id e hstart hevents hs htexts
      he
    obtain ⟨nodes, hcopy, -⟩ := Draft.copy_eq hs.isTree.linked hs.keyed he
    refine ⟨nodes, hcopy, ?_, ?_⟩
    · rintro between t parent index rest rfl hbetween ht hhost
      exact paste_of_run hstart hevents hbetween hs htexts he hcopy ht hhost
    · -- The copying is the last event of what is past when the pastes begin.
      have hcopied : events start steps = (past ++ [.call s (.copy id)]) ++ later := by
        simp [hevents]
      exact pastes_disjoint hstart hcopied hs.isTree.linked he

theorem nested_textStyled : nested.TextStyled := by
  have hempty : ∀ p ∈ nested.elements.entries, p.2.style = .empty := by decide +kernel
  intro id e he p hp
  rw [hempty _ ((nested.elements.mem_entries_iff id e).2 he)] at hp
  cases hp

/-- A container is copied into itself; and one that is removed after it has been copied is pasted
twice. -/
theorem copies_are_faithful_nested :
    let draft : Draft := ⟨.builtIn, { next := 5 }, nested⟩
    let commands : List Command :=
      [.copy "el_3", .remove "el_3", .paste none none, .paste none (some 0)]
    (∃ nodes after name, draft.copy "el_3" = .ok nodes ∧
      Draft.attach (some "el_3") nodes (some 0) draft = .ok (name "el_3") after ∧
      nested.CopiedInto "el_3" name nested (some "el_3") (some 0) after.page) ∧
    ∃ start s t u first second, Session.start .builtIn ⟨nested, [], .standard⟩ none {} = .ok start ∧
      events start (commands.map (.command · false)) = [.call start (.copy "el_3"),
        .call s (.remove "el_3"), .call t (.paste none none), .call u (.paste none (some 0))] ∧
      (Event.call t (.paste none none)).Pastes nested "el_3" first ∧
      (Event.call u (.paste none (some 0))).Pastes nested "el_3" second ∧
      ∀ {x y}, nested.Reaches "el_3" x → nested.Reaches "el_3" y → first x ≠ second y := by
  intro draft commands
  obtain ⟨hdrafts, hruns⟩ := copies_are_faithful
  have hstored : nested.get? "el_3" =
      some ⟨"el_3", "container", .empty, .empty, ["el_4"], some "el_1"⟩ := by
    decide +kernel
  constructor
  · have hdraft : Draft.ofPage .builtIn {} nested = .ok draft := by decide +kernel
    have hahead : draft.ids.Ahead nested := Draft.ahead_of_ofPage (by decide) hdraft
    obtain ⟨nodes, hcopy, -, hattached⟩ := @hdrafts draft draft "el_3" (some "el_3") (some 0) _
      nested_wellFormed nested_textStyled hstored nested_wellFormed hahead rfl ⟨_, hstored, rfl⟩
    have hrun : ((draft.copy "el_3").toOption.any fun nodes =>
        succeeds (Draft.attach (some "el_3") nodes (some 0) draft) fun _ _ => true) = true := by
      decide +kernel
    obtain ⟨nodes', hcopy', hrun⟩ := exists_of_any hrun
    cases hcopy.symm.trans hcopy'
    obtain ⟨new, after, hattach, -⟩ := exists_of_succeeds hrun
    obtain ⟨-, -, -, name, rfl, hinto⟩ := hattached hattach
    exact ⟨nodes, after, name, hcopy, hattach, hinto⟩
  · have hrun : ((Session.start .builtIn ⟨nested, [], .standard⟩ none {}).toOption.any fun start =>
        let t := stateOf ((Command.remove "el_3").run (stateOf ((Command.copy "el_3").run start)))
        let u := stateOf ((Command.paste none none).run t)
        start.draft = draft && t.draft.catalog = .builtIn && t.draft.page = pair &&
          succeeds ((Command.paste none none).run t) (fun _ _ => true) &&
          u.draft.page.root = some "el_1" &&
          (u.draft.page.get? "el_1").any (fun host => u.draft.catalog.isContainer host.kind) &&
          succeeds ((Command.paste none (some 0)).run u) fun _ _ => true) = true := by
      decide +kernel
    obtain ⟨start, hstart, hrun⟩ := exists_of_any hrun
    simp only [Bool.and_eq_true, decide_eq_true_eq] at hrun
    obtain ⟨⟨⟨⟨⟨⟨hdraft, hcatalog⟩, hpage⟩, hfirst⟩, hroot⟩, hhost⟩, hsecond⟩ := hrun
    generalize hs : stateOf ((Command.copy "el_3").run start) = s at *
    generalize ht : stateOf ((Command.remove "el_3").run s) = t at *
    generalize hu : stateOf ((Command.paste none none).run t) = u at *
    have hevents : events start (commands.map (.command · false)) =
        [] ++ .call start (.copy "el_3") :: [.call s (.remove "el_3"), .call t (.paste none none),
          .call u (.paste none (some 0))] := by
      simp only [commands, List.map_cons, List.map_nil, events_command, hs, ht, hu]
      rfl
    obtain ⟨copied, -, hpastes, hdisjoint⟩ := @hruns .builtIn _ _ _ start _ [] _ start "el_3" _
      hstart hevents (by rw [hdraft]; exact nested_wellFormed)
      (by rw [hdraft]; exact nested_textStyled) (by rw [hdraft]; exact hstored)
    rw [hdraft] at hpastes hdisjoint
    have htwell : t.draft.page.WellFormed t.draft.catalog := by
      rw [hcatalog, hpage]
      exact pair_wellFormed
    have hthost : t.draft.page.Hosts t.draft.catalog (Option.or none t.draft.page.root) := by
      rw [hcatalog, hpage]
      exact ⟨_, rfl, rfl⟩
    obtain ⟨_, _, hfirst, -⟩ := exists_of_succeeds hfirst
    obtain ⟨first, hfirst⟩ := (@hpastes [.call s (.remove "el_3")] t none none _ rfl
      (by simp [Event.Copies]) htwell hthost).2 ⟨_, _, hfirst⟩
    -- The second paste starts from the page that the first one has left.
    have huwell : u.draft.page.WellFormed u.draft.catalog := by
      obtain ⟨u', hrun, -, hwell, -⟩ := hfirst
      rw [hrun] at hu
      cases hu
      exact hwell
    have huhost : u.draft.page.Hosts u.draft.catalog (Option.or none u.draft.page.root) := by
      obtain ⟨host, hstored, hholds⟩ := (Option.any_eq_true _ _).1 hhost
      rw [hroot]
      exact ⟨host, hstored, hholds⟩
    obtain ⟨_, _, hsecond, -⟩ := exists_of_succeeds hsecond
    obtain ⟨second, hsecond⟩ := (@hpastes [.call s (.remove "el_3"), .call t (.paste none none)] u
      none (some 0) _ rfl (by simp [Event.Copies]) huwell huhost).2 ⟨_, _, hsecond⟩
    obtain ⟨-, hpair⟩ := List.pairwise_cons.1 hdisjoint
    exact ⟨start, s, t, u, first, second, hstart, hevents, hfirst, hsecond,
      (List.pairwise_cons.1 hpair).1 _ (List.mem_singleton_self _) hfirst hsecond⟩

end PageBuilder.Session
