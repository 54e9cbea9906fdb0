import PageBuilder.Proofs.Draft.Vocabulary
import PageBuilder.Proofs.Markup.LookUp
import PageBuilder.Proofs.Session.Events

/-!
# The catalog that is passed is the catalog that is used

A catalog is passed when a draft is made of a page, when a session is started and when code is
generated.  All of these take the built-in one in the place of an empty one, so an empty catalog
cannot be passed at all.  Any other is the one that counts: a draft keeps it through all edits, a
session keeps it through undo, loading and the end of failed batches, each of which makes a new
draft, and generating code looks up every kind in it before anything is written.
-/

namespace PageBuilder

open Results

/-! ## Generated code -/

namespace Markup

variable {catalog : Catalog} {page : Page} {e : Element}

/-- The report of an element whose kind a catalog does not have. -/
def ReportsUnknown (catalog : Catalog) (page : Page) (failure : Failure) : Prop :=
  ∃ id e, page.get? id = some e ∧ catalog.contains e.kind = false ∧
    failure = .rejected (.unknownKind e.kind (some e.id))

/-- On a tree with an element of an unknown kind one such element is found. -/
theorem components_unknown (hl : page.Linked) {id : String} (he : page.get? id = some e)
    (hkind : catalog.contains e.kind = false) :
    ∃ failure, components catalog page = .error failure ∧
      ReportsUnknown catalog page failure := by
  obtain ⟨d, hd⟩ := hl.deep he
  obtain ⟨root, hroot⟩ := hd.root_eq_some
  have hr := hl.reaches_of_atDepth hd hroot
  rw [components_eq_walk catalog hroot]
  have hempty : ∀ kind, (OrderedMap.empty : OrderedMap Component).contains kind = true →
      catalog.contains kind = true := by
    intro kind hk
    cases hk
  cases hwalk : page.walk (lookUp catalog) .empty [(root, page.generations)] with
  | ok known =>
    -- Every kind met would have been looked up, this one too, and found.
    have hmet : known.contains e.kind = true :=
      Page.walk_visits (fun found e => found.contains e.kind = true)
        (fun hok => ((lookUp_ok hok _).1).2 (Or.inl rfl))
        (fun hok hm => ((lookUp_ok hok _).1).2 (Or.inr hm)) hwalk List.mem_cons_self hr he
    have hknown : ∀ kind, known.contains kind = true → catalog.contains kind = true :=
      Page.walk_keeps (fun found => ∀ kind, found.contains kind = true →
        catalog.contains kind = true)
        (fun _ hok hgood kind hk => ((lookUp_ok hok kind).2 hk).elim (hgood kind) fun hk => hk)
        hwalk hempty
    exact absurd (hknown _ hmet) (by simp [hkind])
  | error failure =>
    obtain ⟨x, f, found, hf, hfail⟩ := hl.visit_of_walk_error (Page.spared_root hroot) hwalk
    obtain ⟨hunknown, rfl⟩ := lookUp_error hfail
    exact ⟨_, rfl, x, f, hf, hunknown, rfl⟩

end Markup

/-! ## Sessions -/

namespace Session

variable {catalog : Catalog} {start s t : Session}

theorem catalog_restore (snapshot : Snapshot) (h : s.draft.catalog = catalog.orBuiltIn) :
    (stateOf (restore snapshot s)).draft.catalog = catalog.orBuiltIn := by
  rcases restore_cases snapshot s with ⟨failure, hr⟩ | ⟨draft, hdraft, hr⟩
  · rw [hr]
    exact h
  · rw [hr]
    exact (IdSource.ofPage_eq hdraft).1.trans (by rw [h, Catalog.orBuiltIn_orBuiltIn])

theorem Move.catalog_eq {command : Command} (hmove : Move s command t)
    (h : s.draft.catalog = catalog.orBuiltIn) : t.draft.catalog = catalog.orBuiltIn := by
  cases hmove with
  | @edited _ edit _ _ _ hrun =>
    have hcatalog := edit.catalog_run s.draft
    rw [hrun] at hcatalog
    rw [draft_changed]
    exact hcatalog.trans h
  | @halted _ edit _ _ _ hrun =>
    have hcatalog := edit.catalog_run s.draft
    rw [hrun] at hcatalog
    exact hcatalog.trans h
  | loaded _ _ hdraft =>
    rw [draft_changed]
    exact (IdSource.ofPage_eq hdraft).1.trans (by rw [h, Catalog.orBuiltIn_orBuiltIn])
  | travelled => exact catalog_restore _ h
  | kept | copied | selected | set | generated => exact h

theorem lasting_catalog (catalog : Catalog) :
    Lasting (fun _ => True) fun s => s.draft.catalog = catalog.orBuiltIn where
  move _ hs hmove := hmove.catalog_eq hs
  enter hs := by
    unfold Session.enter
    split <;> exact hs
  closed _ hs := hs
  commit hs := hs
  restore _ hu := catalog_restore _ hu

theorem catalog_start {initial : Snapshot} {limit : Option Int} {preferences : Preferences}
    (h : Session.start catalog initial limit preferences = .ok start) :
    start.draft.catalog = catalog.orBuiltIn := by
  obtain ⟨draft, hdraft, rfl⟩ := exists_of_start h
  exact (IdSource.ofPage_eq hdraft).1

/-- At every point of a run the draft has the catalog that the session was started with. -/
theorem reached_catalog {initial : Snapshot} {limit : Option Int} {preferences : Preferences}
    {steps : List Step} {past later : List Event}
    (hstart : Session.start catalog initial limit preferences = .ok start)
    (hevents : events start steps = past ++ later) :
    (reached start past).draft.catalog = catalog.orBuiltIn :=
  ((history_of_events hevents).lasting (lasting_catalog catalog) (catalog_start hstart)
    fun _ _ => trivial).1

/-! ## All together -/

/-- A catalog that is not empty is heeded by every draft made with it, after whatever edits, and at
every point of every run of a session started with it, where a command ends as its edit does.  And
no code is generated from a tree with an element of a kind it does not have, whatever catalog the
tree was checked with. -/
theorem passed_catalog_used {catalog : Catalog} (hcatalog : catalog.components.isEmpty = false) :
    (∀ {ids page draft}, Draft.ofPage catalog ids page = .ok draft →
      ∀ edits, (draft.runAll edits).Heeds catalog) ∧
    (∀ {initial limit preferences start steps past later},
      Session.start catalog initial limit preferences = .ok start →
      events start steps = past ++ later →
      let s := reached start past
      s.draft.Heeds catalog ∧
        ∀ {command : Command} {edit : Draft.Edit}, command.edit? s = some edit →
          GoesWith s edit (command.run s)) ∧
    ∀ {snapshot : Snapshot} {checker checkKinds},
      snapshot.page.problems checker checkKinds = [] →
      ∀ {id e}, snapshot.page.get? id = some e → catalog.contains e.kind = false →
      ∀ options : Source.Options, ∃ failure, Markup.ReportsUnknown catalog snapshot.page failure ∧
        Source.generateMarkup snapshot options catalog = .error failure ∧
        Source.generate snapshot options catalog =
          if Failure.dialectNames.contains options.dialect then .error failure
          else .error (.unknownDialect options.dialect) := by
  have hkept := Catalog.orBuiltIn_eq hcatalog
  refine ⟨?_, ?_, ?_⟩
  · intro ids page draft hdraft edits
    have heq := (Draft.catalog_runAll draft edits).trans (IdSource.ofPage_eq hdraft).1
    rw [hkept] at heq
    exact heq ▸ Draft.heeds_catalog _
  · intro initial limit preferences start steps past later hstart hevents s
    have heq := reached_catalog hstart hevents
    rw [hkept] at heq
    exact ⟨heq ▸ Draft.heeds_catalog _, Command.run_goesWith⟩
  · intro snapshot checker checkKinds hnone id e he hkind options
    have hl := (Page.problems_eq_nil_iff.1 hnone).1.linked
    obtain ⟨failure, hfail, hreport⟩ := Markup.components_unknown hl he hkind
    refine ⟨failure, hreport, ?_, ?_⟩
    · rw [Source.generateMarkup, hkept, hfail]
      rfl
    · rw [Source.generate, Source.Options.checkDialect, hkept, hfail]
      split <;> rfl

/-- A catalog of nothing but boxes. -/
def boxes : Catalog :=
  Catalog.empty.add
    { kind := "box", tag := "Box", name := "Box", shelf := "layout", container := true }

/-- Boxes are still all there is after a removal, and after a batch that is given up and an undo;
a page of other kinds is checked with the built-in catalog and cannot be written with boxes. -/
theorem passed_catalog_used_boxes :
    let steps : List Step := [
      .command (.insert none "box" none .empty .empty) false,
      .batch [.command (.insert (some "el_1") "box" none .empty .empty) false] (some "stop") false,
      .command .undo false]
    (∃ draft, Draft.ofPage boxes {} .pair = .ok draft ∧
      (draft.runAll [.remove "el_2"]).Heeds boxes) ∧
    (∃ start, Session.start boxes .empty none {} = .ok start ∧
      (reached start (events start steps)).draft.Heeds boxes) ∧
    Page.pair.problems .builtIn true = [] ∧
    ∃ failure, Markup.ReportsUnknown boxes .pair failure ∧
      Source.generateMarkup { page := .pair } {} boxes = .error failure := by
  intro steps
  obtain ⟨hdrafts, hsessions, hsources⟩ := @passed_catalog_used boxes rfl
  obtain ⟨draft, hdraft⟩ : ∃ draft, Draft.ofPage boxes {} .pair = .ok draft := ⟨_, rfl⟩
  obtain ⟨start, hstart⟩ : ∃ start, Session.start boxes .empty none {} = .ok start := ⟨_, rfl⟩
  have hnone : Page.pair.problems .builtIn true = [] := by decide +kernel
  obtain ⟨failure, hreport, hmarkup, -⟩ :=
    @hsources { page := .pair } .builtIn true hnone "el_2" _ rfl rfl {}
  exact ⟨⟨draft, hdraft, hdrafts hdraft _⟩,
    ⟨start, hstart, (hsessions hstart (List.append_nil _).symm).1⟩,
    hnone, failure, hreport, hmarkup⟩

/-- With the empty catalog, which has no kinds, a text is inserted. -/
theorem passed_catalog_used_empty :
    Catalog.empty.contains "text" = false ∧
    ∃ draft after, Draft.ofPage .empty {} {} = .ok draft ∧
      Draft.insert none "text" none .empty .empty draft = .ok "el_1" after := by
  have hrun : succeeds (Draft.insert none "text" none .empty .empty ⟨.builtIn, {}, {}⟩)
      (fun id _ => id = "el_1") = true := by
    decide +kernel
  obtain ⟨id, after, hrun, hid⟩ := exists_of_succeeds hrun
  obtain rfl := of_decide_eq_true hid
  exact ⟨rfl, _, after, rfl, hrun⟩

end Session

end PageBuilder
