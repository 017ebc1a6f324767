import EntityMapper.Proofs.Session.ResolvedListings

namespace EntityMapper

namespace Heap

theorem quiet_set {h k : Heap} {r : Ref} {field : String} {value : Value} (run : h.set r field value = .ok k) :
    h.Quiet k := by
  obtain ⟨changed, set, run⟩ := Except.bind_eq_ok.mp run
  cases run
  obtain ⟨entity, states⟩ := Instance.states_of_set set
  exact h.quiet_of_states r entity states

end Heap

namespace Work

/-- A row of the answer to a plan misplaces an instance. -/
def MisplacesRows (w : Work) (p : Plan) : Prop :=
  ∃ query rows middle, compile w.registry w.dialect p = .ok query ∧ Session.run query.statement w = .ok rows middle ∧
    Hydration.MisplacesInRows query.layout rows.rows ⟨w.heap, w.identity, [], []⟩

/-- A request puts an instance into a collection although its own side of the association leads elsewhere. -/
def Misplaces (w : Work) : Request → Prop
  | .resolve r association => w.MisplacesItem r association
  | .fetch _ p => w.MisplacesRows p
  | .fetchOne _ p => w.MisplacesRows p
  | .fetchFirst _ p => w.MisplacesRows { p with limit := some (if p.limit = some 0 then 0 else 1) }
  | .fetchPage _ p => ∃ total middle, Session.fetchCount p w = .ok total middle ∧ total ≠ 0 ∧ middle.MisplacesRows p
  | _ => False

end Work

namespace Session

/-- The rows of a query decide whether both sides still agree. -/
theorem decides_fetchRecords {w : Work} (valid : w.Valid) (p : Plan) :
    w.heap.Decides (w.MisplacesRows p) (leaves (fetchRecords p) w).heap := by
  by_cases answered : ∃ query rows middle, compile w.registry w.dialect p = .ok query ∧
      run query.statement w = .ok rows middle
  · obtain ⟨query, rows, middle, compiled, answered⟩ := answered
    rw [heap_fetchRecords compiled answered]
    have sound : (⟨w.heap, w.identity, [], []⟩ : Hydration).Sound := ⟨Hydration.staged_nil _ _ _, valid⟩
    refine (Hydration.decides_recordsOf query.layout rows.rows sound fun _ _ member =>
      absurd member List.not_mem_nil).congr ⟨fun misplaced => ⟨query, rows, middle, compiled, answered, misplaced⟩, ?_⟩
    rintro ⟨query', rows', middle', compiled', answered', misplaced⟩
    cases compiled.symm.trans compiled'
    cases answered.symm.trans answered'
    exact misplaced
  · rw [heap_fetchRecords_unanswered fun query rows middle compiled same =>
      answered ⟨query, rows, middle, compiled, same⟩]
    refine (Heap.Quiet.refl w.heap).decides_never ?_
    rintro ⟨query, rows, middle, compiled, same, _⟩
    exact answered ⟨query, rows, middle, compiled, same⟩

theorem decides_fetchPage {α : Type} (decode : Record → Except Error α) {w : Work} (valid : w.Valid) (p : Plan) :
    w.heap.Decides (∃ total middle, fetchCount p w = .ok total middle ∧ total ≠ 0 ∧ middle.MisplacesRows p)
      (leaves (fetchPage decode p) w).heap := by
  have counting := respects_fetchCount (respects_run steps_quiet) p w
  cases counted : fetchCount p w with
  | error e after =>
    rw [leaves_of_error counted] at counting
    unfold fetchPage
    rw [leaves_bind_of_error counted]
    refine Heap.Quiet.decides_never counting ?_
    rintro ⟨_, _, counted', _⟩
    cases counted'
  | ok total middle =>
    by_cases none : total = 0
    case pos =>
      rw [leaves_of_ok counted] at counting
      have left : leaves (fetchPage decode p) w = middle := by
        unfold fetchPage
        rw [leaves_bind_of_ok counted, if_pos none]
        rfl
      rw [left]
      refine Heap.Quiet.decides_never counting ?_
      rintro ⟨total', middle', counted', some, _⟩
      cases counted'
      exact some none
    case neg =>
      obtain ⟨unit, store, statement, rfl, _⟩ := fetchCount_ok counted
      have left : leaves (fetchPage decode p) w = leaves (fetchRecords p) { w with unit, store } := by
        rw [← leaves_fetch decode]
        unfold leaves
        rw [fetchPage_run counted none, bind_run]
        cases fetch decode p { w with unit, store } with
        | ok results after => rfl
        | error e after => rfl
      rw [left]
      have valid' : ({ w with unit, store } : Work).Valid := valid
      refine (decides_fetchRecords valid' p).congr ⟨fun misplaced => ⟨total, _, rfl, none, misplaced⟩, ?_⟩
      rintro ⟨total', middle', counted', _, misplaced⟩
      cases counted'
      exact misplaced

/-- Every request decides whether both sides still agree by whether it misplaces an instance. -/
theorem decides_perform {w : Work} (valid : w.Valid) (request : Request) :
    w.heap.Decides (w.Misplaces request) (leaves request.perform w).heap := by
  have quiet {α : Type} {m : SessionM α} (quiet : Respects Quiet m) (refs : α → List Ref) :
      w.heap.Decides False (leaves (do
        let a ← m
        pure (refs a)) w).heap := by
    rw [leaves_bind_pure]
    exact Heap.Quiet.decides (quiet w)
  cases request with
  | instantiate entity => exact quiet (respects_instantiate steps_quiet.made entity) _
  | persist r => exact quiet (respects_persist steps_quiet r) _
  | find entity id => exact quiet (quiet_find entity id) _
  | resolve r association =>
    unfold Request.perform
    rw [leaves_bind_pure]
    exact decides_resolve valid r association
  | fetch type p =>
    unfold Request.perform
    rw [leaves_bind_pure, leaves_fetch]
    exact decides_fetchRecords valid p
  | fetchOne type p =>
    unfold Request.perform
    rw [leaves_bind_pure, leaves_fetchOne]
    exact decides_fetchRecords valid p
  | fetchFirst type p =>
    unfold Request.perform
    rw [leaves_bind_pure, leaves_fetchFirst]
    exact decides_fetchRecords valid _
  | fetchPage type p =>
    unfold Request.perform
    rw [leaves_bind_pure]
    exact decides_fetchPage type.decode valid p
  | fetchCount p => exact quiet (respects_fetchCount (respects_run steps_quiet) p) _
  | flush => exact quiet (respects_flush steps_quiet) _
  | clear => exact quiet quiet_detachAll _
  | execute statement => exact quiet (respects_run steps_quiet statement) _

end Session

namespace Program

/-- The step points an instance away from a target that has it in a further collection. -/
def Overlooks (p : Program) : Action → Prop
  | .setReference r association target => p.heap.Overlooks r association target
  | _ => False

/-- The step puts an instance into a collection although its own side of the association leads elsewhere. -/
def Misplaces (p : Program) : Action → Prop
  | .request name request => ∃ w, p.work name = some w ∧ w.Misplaces request
  | _ => False

/-- Every step of a run has a property in the state that it is taken in. -/
def Along (P : Program → Action → Prop) (p : Program) : List Action → Prop
  | [] => True
  | action :: rest => P p action ∧ Along P (p.step action) rest

theorem decides_step {p : Program} (consistent : p.Consistent) (shaped : p.heap.Every Instance.Shaped)
    (action : Action) : p.heap.Decides (p.Overlooks action ∨ p.Misplaces action) (p.step action).heap := by
  have still {after : Program} (quiet : p.heap.Quiet after.heap) : p.heap.Decides (False ∨ False) after.heap :=
    Heap.Quiet.decides_never quiet or_self_iff.mp
  have elim {α : Type} (x : Option α) {next : α → Program} (taken : ∀ a, x = some a → p.heap.Quiet (next a).heap) :
      p.heap.Quiet (x.elim p next).heap := elim_cases (P := fun q => p.heap.Quiet q.heap) (.refl p.heap) taken
  have ended {name : String} {w : Work} (opened : p.work name = some w) {act : SessionM Unit}
      (quiet : Respects Session.Quiet act) : p.heap.Quiet (w.endWith act).2.1 := by
    obtain ⟨s, _, rfl⟩ := work_eq_some.mp opened
    rw [Work.heap_endWith]
    exact quiet ⟨s, p.heap, p.store⟩
  cases action with
  | create e => exact still (p.heap.quiet_allocate (Instance.items_new e))
  | set r field value => exact still (elim _ fun heap run => Heap.quiet_set (ok_of_toOption run))
  | setReference r association target =>
    cases run : p.heap.setReference r association target with
    | error e =>
      have unchanged : p.step (.setReference r association target) = p := by rw [step, run]; rfl
      rw [unchanged]
      refine (Heap.Quiet.refl p.heap).decides_never ?_
      rintro (⟨succeeds, _⟩ | none)
      · cases run.symm.trans succeeds
      · exact none
    | ok heap =>
      have changed : (p.step (.setReference r association target)).heap = heap := by rw [step, run]; rfl
      rw [changed]
      exact (Heap.setReference_decides shaped run).congr (or_iff_left id).symm
  | answer replies => exact still (.refl _)
  | direct statement => exact still (.refl _)
  | «begin» name connection registry =>
    refine still ?_
    unfold step
    dsimp only
    split
    · exact .refl _
    · exact .refl _
  | request name request =>
    cases opened : p.work name with
    | none =>
      have unchanged : p.step (.request name request) = p := by rw [step, opened]; rfl
      rw [unchanged]
      refine (Heap.Quiet.refl p.heap).decides_never ?_
      rintro (none | ⟨w, found, _⟩)
      · exact none
      · cases opened.symm.trans found
    | some w =>
      have valid := consistent.work_valid opened
      have changed : (p.step (.request name request)).heap = (leaves request.perform w).heap := by
        rw [step, opened]
        rfl
      have start : w.heap = p.heap := by
        obtain ⟨s, _, rfl⟩ := work_eq_some.mp opened
        rfl
      rw [changed, ← start]
      refine (Session.decides_perform valid request).congr ⟨fun misplaces => .inr ⟨w, opened, misplaces⟩, ?_⟩
      rintro (none | ⟨v, found, misplaces⟩)
      · exact none.elim
      · cases opened.symm.trans found
        exact misplaces
  | commit name =>
    have quiet := Session.respects_commit Session.steps_quiet Session.quiet_detachAll
    exact still (elim _ fun w opened => ended opened quiet)
  | rollback name =>
    have quiet := Session.respects_rollback Session.steps_quiet Session.quiet_detachAll
    exact still (elim _ fun w opened => ended opened quiet)
  | drop name => exact still (elim _ fun w opened => ended opened (.pure ()))

/-- Collections of reachable states hold instances that are there. -/
theorem Reachable.closed {p : Program} (reach : p.Reachable) : p.heap.Closed := by
  have both : (p.Consistent ∧ p.heap.Every Instance.Shaped) ∧ p.heap.Closed := by
    refine reach.induct (P := fun p => (p.Consistent ∧ p.heap.Every Instance.Shaped) ∧ p.heap.Closed) ?_ ?_
    · refine fun s => ⟨⟨consistent_start s, fun _ => Instance.lasting_shaped.blank⟩, fun owner index item lists => ?_⟩
      exact absurd lists List.not_mem_nil
    · rintro p action ⟨⟨consistent, shaped⟩, closed⟩
      exact ⟨⟨consistent.step action, every_step Instance.lasting_shaped shaped action⟩,
        (decides_step consistent shaped action closed).1⟩
  exact both.2

/-- Both sides agree all along a run of steps that overlook no collection exactly when no step misplaces an instance. -/
theorem Reachable.bothSides_iff {p : Program} (reach : p.Reachable) (agree : p.heap.BothSides) (actions : List Action)
    (followed : Along (fun p action => ¬p.Overlooks action) p actions) :
    (∀ before, before <+: actions → (p.run before).heap.BothSides) ↔
      Along (fun p action => ¬p.Misplaces action) p actions := by
  induction actions generalizing p with
  | nil =>
    refine iff_of_true (fun before none => ?_) True.intro
    rw [List.prefix_nil.mp none]
    exact agree
  | cons action rest ih =>
    have decides := (decides_step reach.consistent (reach.every Instance.lasting_shaped) action reach.closed).2 agree
    have reachNext : (p.step action).Reachable := reach.run [action]
    constructor
    · intro both
      have next := both [action] ⟨rest, rfl⟩
      refine ⟨fun misplaces => decides.mp next (.inr misplaces), (ih reachNext next followed.2).mp ?_⟩
      exact fun before initial => both (action :: before) (List.cons_prefix_cons.mpr ⟨rfl, initial⟩)
    · rintro ⟨placed, later⟩ before initial
      have next := decides.mpr (not_or.mpr ⟨followed.1, placed⟩)
      cases before with
      | nil => exact agree
      | cons first before =>
        obtain ⟨rfl, remaining⟩ := List.cons_prefix_cons.mp initial
        exact (ih reachNext next followed.2).mpr later before remaining

theorem bothSides_start (s : Store) : (start s).heap.BothSides :=
  fun _ _ _ _ lists => absurd lists List.not_mem_nil

/-- Whatever a program does, over any store, both sides of its associations agree in all states of a run exactly as long
as no request misplaces an instance: reads it into a collection although its own side is loaded and leads elsewhere, or
stays unanswered. Runs that point an instance away from a target with a further collection of it are left aside. -/
theorem bothSides_run_iff (s : Store) (actions : List Action)
    (followed : Along (fun p action => ¬p.Overlooks action) (start s) actions) :
    (∀ before, before <+: actions → ((start s).run before).heap.BothSides) ↔
      Along (fun p action => ¬p.Misplaces action) (start s) actions :=
  (reachable_start s).bothSides_iff (bothSides_start s) actions followed

/-- Crews and the sailors that refer to them. -/
def crewEntity : Entity :=
  ⟨"crew", "crews", [⟨"id", "id", .integer⟩], ⟨0, Nat.one_pos⟩,
    [⟨"sailors", "crew", "sailor", "sailors", .many, "id", "crew_id", some "crew", .integer⟩]⟩

def sailorEntity : Entity :=
  ⟨"sailor", "sailors", [⟨"id", "id", .integer⟩], ⟨0, Nat.one_pos⟩,
    [⟨"crew", "sailor", "crew", "crews", .one, "crew_id", "id", none, .integer⟩]⟩

/-- A store with two crews and a sailor of the first. -/
def harbour : Store :=
  ⟨[.rows .empty, .rows ⟨["id"], [[.int 1]]⟩, .rows ⟨["id"], [[.int 2]]⟩,
    .rows ⟨["id", "crew_id"], [[.int 10, .int 1]]⟩, .rows ⟨["id", "crew_id"], [[.int 10, .int 1]]⟩], []⟩

/-- The sailor is pointed at the second crew, and before that is written the sailors of the first one are loaded. -/
def enlisting : List Action :=
  [.begin "main" ⟨.postgres, .defaults⟩ ⟨[crewEntity, sailorEntity]⟩, .request "main" (.find "crew" (.int 1)),
    .request "main" (.find "crew" (.int 2)), .request "main" (.find "sailor" (.int 10)),
    .setReference ⟨2⟩ "crew" (some ⟨1⟩), .request "main" (.resolve ⟨0⟩ "sailors")]

theorem bothSides_run_iff_enlisting : Along (fun p action => ¬p.Overlooks action) (start harbour) enlisting ∧
    ((∀ before, before <+: enlisting → ((start harbour).run before).heap.BothSides) ↔
      Along (fun p action => ¬p.Misplaces action) (start harbour) enlisting) := by
  have followed : Along (fun p action => ¬p.Overlooks action) (start harbour) enlisting := by
    refine ⟨id, id, id, id, ?_, id, True.intro⟩
    -- The sailor has not loaded its crew yet.
    rintro @⟨_, _, _, _, _, _, found, _, refers, _⟩
    cases found
    cases refers
  exact ⟨followed, bothSides_run_iff harbour enlisting followed⟩

/-- The first crew lists a sailor that has gone over to the second one: the store still answers with the first, since
the change is yet to be written. -/
theorem resolve_misplaces_sailor : ((start harbour).run enlisting).Reachable ∧
    (((start harbour).run enlisting).heap.get ⟨2⟩).dirty = ["crew_id"] ∧
      ¬((start harbour).run enlisting).heap.BothSides := by
  refine ⟨(reachable_start harbour).run enlisting, rfl, fun both => ?_⟩
  have leads := both ⟨0⟩ 0 ⟨2⟩ 0 List.mem_cons_self ⟨_, _, _, rfl, rfl, rfl, rfl, rfl⟩
  cases leads

end Program

end EntityMapper
