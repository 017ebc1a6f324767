import EntityMapper.Proofs.Session.LateRows
import EntityMapper.Proofs.Session.OneInstance

namespace EntityMapper

open Work (Silent Asks)

namespace Session

theorem safe_runAll (statements : List Statement) : BuildSafe (runAll statements) := by
  induction statements with
  | nil => exact .pure _
  | cons s rest ih => exact .bind (safe_run s) fun _ => ih

/-- All updates are made before the first is sent. -/
theorem refusesEarly_flush (w : Work) : RefusesEarly flush w := by
  have silent : Respects Silent (collectUpdates w.identity.refs) := respects_collectUpdates (fun _ _ => rfl) _
  have collected : RefusesEarly (collectUpdates w.identity.refs) w := .of_silent silent w
  exact RefusesEarly.get_bind.mpr <| (RefusesEarly.bind_safe fun updates =>
    .bind (safe_runAll updates) fun _ => .pure updates.length).mpr collected

/-- A key that is brought along is usable and free. -/
theorem checkNewKey_ok {i : Instance} {w after : Work} (run : checkNewKey i w = .ok () after) :
    after = w ∧ (i.id.isNull = false → ∃ key, i.key = .ok key ∧ w.identity.get? key = none) := by
  unfold checkNewKey at run
  split at run
  case isTrue null =>
    cases run
    exact ⟨rfl, fun present => absurd null (by simp [present])⟩
  case isFalse =>
    obtain ⟨_, _, got, checking⟩ := bind_ok run
    cases got
    obtain ⟨key, _, keyed, looking⟩ := bind_ok checking
    obtain ⟨usable, rfl⟩ := check_ok keyed
    split at looking
    · cases looking
    case isFalse free =>
      cases looking
      exact ⟨rfl, fun _ => ⟨key, usable, by simpa using free⟩⟩

theorem safe_generatedKey (e : Entity) (inserted : RowSet) : BuildSafe (generatedKey e inserted) :=
  generatedKey_cases e inserted (fun _ => .bind .get) (fun _ _ => .bind (safe_run _)) .pure (.throw rfl)

/-- What is refused of a row is refused before it is sent. -/
theorem refusesEarly_sendRow (i : Instance) (w : Work) : RefusesEarly (sendRow i) w := by
  refine .bind_silent (.of_silent (respects_checkNewKey i) w) fun _ middle checked => ?_
  obtain ⟨rfl, _⟩ := checkNewKey_ok checked
  refine ⟨rfl, RefusesEarly.get_bind.mpr (.check_bind fun assignments _ => .of_safe (.bind (safe_run _) fun rows => ?_) _)⟩
  split
  · exact .bind (safe_generatedKey _ _) fun _ => .pure _
  · exact .pure _

/-- A row that is sent is a statement. Without a key from the store the instance has brought along a free one. -/
theorem sendRow_ok {i : Instance} {w after : Work} {key? : Option Value} (run : sendRow i w = .ok key? after) :
    w.Asks after ∧ after.store.calls ≠ w.store.calls ∧
      (key? = none → ∃ key, i.key = .ok key ∧ w.identity.get? key = none) := by
  obtain ⟨_, start, checked, preparing⟩ := bind_ok run
  obtain ⟨same, free⟩ := checkNewKey_ok checked
  rw [same] at preparing
  obtain ⟨_, _, got, assigning⟩ := bind_ok preparing
  cases got
  obtain ⟨assignments, _, assigned, sending⟩ := bind_ok assigning
  rw [(check_ok assigned).2] at sending
  obtain ⟨rows, middle, answered, asking⟩ := bind_ok sending
  obtain ⟨unit, store, rfl, calls⟩ := run_ok answered
  have different {last : Work} (prefixed : store.calls <+: last.store.calls) :
      last.store.calls ≠ w.store.calls := by
    obtain ⟨more, same⟩ := prefixed
    rw [← same, calls]
    simp
  have sent : w.Asks { w with unit, store } := ⟨rfl, rfl, ⟨_, calls.symm⟩⟩
  split at asking
  case isTrue =>
    obtain ⟨key, last, generated, returned⟩ := bind_ok asking
    have asked := respects_generatedKey asks_run i.entity rows { w with unit, store }
    rw [leaves_of_ok generated] at asked
    cases returned
    exact ⟨trans_of Asks sent asked, different asked.calls, fun none => nomatch none⟩
  case isFalse present =>
    cases asking
    exact ⟨sent, different List.prefix_rfl, fun _ => free (by simpa using present)⟩

end Session

theorem IdentityMap.register_error {m : IdentityMap} {h : Heap} {r : Ref} {e : Error} (run : m.register h r = .error e) :
    e.isBuildError = true := by
  rcases Except.bind_eq_error run with unusable | ⟨key, _, occupied⟩
  · unfold Instance.key EntityKey.of at unusable
    rcases Except.bind_eq_error unusable with refused | ⟨_, _, named⟩
    · unfold KeyValue.ofValue at refused
      split at refused
      · cases refused
      · cases refused
      · cases refused
      · cases refused
        rfl
    · cases named
  · split at occupied
    · split at occupied
      · cases occupied
      · cases occupied
        rfl
    · cases occupied

/-- The key that the store makes for the row of an instance is unusable, or taken. -/
def Work.RefusesKey (w : Work) (r : Ref) : Prop :=
  (w.heap.get r).managed = false ∧ ∃ key middle keyed e, Session.sendRow (w.heap.get r) w = .ok (some key) middle ∧
    (w.heap.get r).assignKey key = .ok keyed ∧
    w.identity.register ((w.heap.modify r fun _ => keyed).modify r Instance.manage) r = .error e

namespace Session

theorem refusesEarly_persist (r : Ref) (w : Work) : RefusesEarly (persist r) w ↔ ¬w.RefusesKey r := by
  have start : RefusesEarly (persist r) w ↔ RefusesEarly (if (w.heap.get r).managed then
      if w.identity.contains w.heap r then pure ()
      else throw (.invalidArgument (.foreignInstance (w.heap.get r).entity.name (w.heap.get r).id))
    else insert r) w := Iff.rfl
  rw [start]
  cases managed : (w.heap.get r).managed with
  | true =>
    rw [if_pos rfl]
    refine iff_of_true (.of_silent ?_ w) fun late => ?_
    · split
      · exact .pure _
      · exact .throw _
    · have fresh := late.1
      rw [managed] at fresh
      cases fresh
  | false =>
    rw [if_neg Bool.false_ne_true]
    constructor
    · rintro early ⟨_, key, middle, keyed, e, sent, assigned, refused⟩
      obtain ⟨asks, different, _⟩ := sendRow_ok sent
      have failed : insert r w = .error e
          { middle with heap := (w.heap.modify r fun _ => keyed).modify r Instance.manage } := by
        rw [insert_run, bind_run, sent]
        dsimp only
        rw [settle_some r _ keyed assigned, register_run, asks.heap, asks.identity, refused]
      have same := early e _ failed (IdentityMap.register_error refused)
      exact different same
    · intro accepted e after failed build
      rw [insert_run] at failed
      rcases bind_error failed with unsent | ⟨key?, middle, sent, unsettled⟩
      · exact refusesEarly_sendRow _ w e after unsent build
      · obtain ⟨asks, _, free⟩ := sendRow_ok sent
        cases key? with
        | some key =>
          cases assigned : (w.heap.get r).assignKey key with
          | error e' =>
            have safe : Except.BuildSafe ((w.heap.get r).assignKey key) :=
              .bind (DataType.safe_coerce _ key) fun _ => .ok _
            simp only [settle, assigned, check] at unsettled
            cases unsettled
            rw [safe e assigned] at build
            cases build
          | ok keyed =>
            rw [settle_some r _ keyed assigned, register_run, asks.heap, asks.identity] at unsettled
            cases refused : w.identity.register ((w.heap.modify r fun _ => keyed).modify r Instance.manage) r with
            | ok registered =>
              rw [refused] at unsettled
              cases unsettled
            | error e' => exact absurd ⟨managed, key, middle, keyed, e', sent, assigned, refused⟩ accepted
        | none =>
          obtain ⟨key, keyed, unregistered⟩ := free rfl
          have managed : ((w.heap.modify r Instance.manage).get r).key = .ok key := by
            rw [Heap.get_modify_self (Heap.holds_of_key keyed)]
            exact keyed
          have last : settle r (w.heap.get r) none middle =
              register r { middle with heap := middle.heap.modify r Instance.manage } := rfl
          rw [last, register_run, asks.heap, asks.identity, IdentityMap.register_free managed unregistered] at unsettled
          cases unsettled

end Session

/-- How a request meets a build error after a statement. -/
inductive Work.RefusesLate (w : Work) : Request → Prop
  | persist {r : Ref} (refused : w.RefusesKey r) : RefusesLate w (.persist r)
  | resolve {r : Ref} {association : String} (refused : w.RefusesItems r association) :
      RefusesLate w (.resolve r association)
  | fetch {type : ResultType} {p : Plan} (refused : w.RefusesRows p) : RefusesLate w (.fetch type p)
  | fetchOne {type : ResultType} {p : Plan} (refused : w.RefusesRows p) : RefusesLate w (.fetchOne type p)
  | fetchFirst {type : ResultType} {p : Plan}
      (refused : w.RefusesRows { p with limit := some (if p.limit = some 0 then 0 else 1) }) :
      RefusesLate w (.fetchFirst type p)
  | fetchPage {type : ResultType} {p : Plan} (refused : w.RefusesPage p) : RefusesLate w (.fetchPage type p)

/-- Build errors come before execution, apart from three causes: the store makes a key that is unusable or taken for a
row that is inserted, a row that is read cannot become an instance or be attached to one, and the plan of a page is
refused after its rows have been counted. -/
theorem Request.refusesEarly_iff (w : Work) (request : Request) :
    RefusesEarly request.perform w ↔ ¬w.RefusesLate request := by
  have never {request : Request} (early : RefusesEarly request.perform w)
      (other : ∀ late : w.RefusesLate request, False) : RefusesEarly request.perform w ↔ ¬w.RefusesLate request :=
    iff_of_true early other
  have answered {α : Type} {m : SessionM α} {f : α → List Ref} : RefusesEarly (do let a ← m; pure (f a)) w ↔
      RefusesEarly m w := RefusesEarly.bind_safe fun _ => .pure _
  cases request with
  | instantiate entity =>
    have silent : Respects Silent (Session.instantiate entity) := Session.respects_instantiate (fun _ _ => rfl) entity
    exact never (answered.mpr (.of_silent silent w)) fun late => nomatch late
  | persist r =>
    refine (answered.trans (Session.refusesEarly_persist r w)).trans (not_congr ⟨.persist, fun late => ?_⟩)
    cases late
    assumption
  | find entity id => exact never (answered.mpr (Session.refusesEarly_find entity id w)) fun late => nomatch late
  | resolve r association =>
    refine (answered.trans (Session.refusesEarly_resolve r association w)).trans (not_congr ⟨.resolve, fun late => ?_⟩)
    cases late
    assumption
  | fetch type p =>
    refine (answered.trans (Session.refusesEarly_fetch (Record.safe_decode type) p w)).trans
      (not_congr ⟨.fetch, fun late => ?_⟩)
    cases late
    assumption
  | fetchOne type p =>
    refine (answered.trans (Session.refusesEarly_fetchOne (Record.safe_decode type) p w)).trans
      (not_congr ⟨.fetchOne, fun late => ?_⟩)
    cases late
    assumption
  | fetchFirst type p =>
    refine (answered.trans (Session.refusesEarly_fetchFirst (Record.safe_decode type) p w)).trans
      (not_congr ⟨.fetchFirst, fun late => ?_⟩)
    cases late
    assumption
  | fetchPage type p =>
    refine (answered.trans (Session.refusesEarly_fetchPage (Record.safe_decode type) p w)).trans
      (not_congr ⟨.fetchPage, fun late => ?_⟩)
    cases late
    assumption
  | fetchCount p => exact never (answered.mpr (Session.refusesEarly_fetchCount p w)) fun late => nomatch late
  | flush => exact never (answered.mpr (Session.refusesEarly_flush w)) fun late => nomatch late
  | clear =>
    have silent : Respects Silent Session.clear := .modify fun w => rfl
    exact never (answered.mpr (.of_silent silent w)) fun late => nomatch late
  | execute statement =>
    exact never (answered.mpr (.of_safe (Session.safe_run statement) w)) fun late => nomatch late

namespace Program

/-- The members in the order of a name that no alias of the plan has. -/
def ghostly : Plan :=
  { Plan.ofEntity ⟨"member", memberEntity⟩ with
    orderings := [⟨.path ⟨"ghost", "member", [], "name", "user_name", .text⟩, .ascending, none⟩] }

/-- The store is going to count three members. -/
def counting : Program := saved.run [.answer [.rows ⟨["count"], [[.int 3]]⟩]]

/-- The count goes to the store before the plan of the page is refused. -/
theorem fetchPage_refused_late : counting.Reachable ∧ ∃ w, counting.work "main" = some w ∧
    ¬RefusesEarly (Request.fetchPage .entity ghostly).perform w := by
  refine ⟨((reachable_start _).run _).run _, _, rfl, fun early => ?_⟩
  have failed : (Request.fetchPage .entity ghostly).perform ((counting.work "main").getD default) =
      .error (.invalidPlan (.unknownAlias "ghost" "ghost.name")) _ := rfl
  have counted := congrArg List.length (early _ _ failed rfl)
  exact absurd counted (by decide)

end Program

end EntityMapper
