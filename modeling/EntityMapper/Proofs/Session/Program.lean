import Mathlib.Logic.Function.Basic
import EntityMapper.Proofs.Session.Results

namespace EntityMapper

/-- What a program asks of an open session. -/
inductive Request where
  | instantiate (entity : String)
  | persist (r : Ref)
  | find (entity : String) (id : Value)
  | resolve (r : Ref) (association : String)
  | fetch (type : ResultType) (p : Plan)
  | fetchOne (type : ResultType) (p : Plan)
  | fetchFirst (type : ResultType) (p : Plan)
  | fetchPage (type : ResultType) (p : Plan)
  | fetchCount (p : Plan)
  | flush
  | clear
  | execute (statement : Statement)

/-- Performs a request. The result lists the instances that it found, fetched or accepted to save. -/
def Request.perform : Request → SessionM (List Ref)
  | instantiate entity => do
    let _ ← Session.instantiate entity
    pure []
  | persist r => do
    Session.persist r
    pure [r]
  | find entity id => do
    let found ← Session.find entity id
    pure found.toList
  | resolve r association => do
    let _ ← Session.resolve r association
    pure []
  | fetch type p => do
    let results ← Session.fetch type.decode p
    pure (results.flatMap Result.refs)
  | fetchOne type p => do
    let result ← Session.fetchOne type.decode p
    pure (result.toList.flatMap Result.refs)
  | fetchFirst type p => do
    let result ← Session.fetchFirst type.decode p
    pure (result.toList.flatMap Result.refs)
  | fetchPage type p => do
    let page ← Session.fetchPage type.decode p
    pure (page.results.flatMap Result.refs)
  | fetchCount p => do
    let _ ← Session.fetchCount p
    pure []
  | flush => do
    let _ ← Session.flush
    pure []
  | clear => do
    Session.clear
    pure []
  | execute statement => do
    let _ ← Session.run statement
    pure []

/-- What every step of a session keeps, a request keeps. Only one of them detaches instances. -/
theorem Request.respects_perform {R : Work → Work → Prop} [IsPreorder Work R] (steps : Session.RowSteps R)
    (request : Request) (detaches : request = .clear → Respects R Session.detachAll) : Respects R request.perform := by
  cases request with
  | instantiate entity => exact .bind (Session.respects_instantiate steps.made entity) fun _ => .pure _
  | persist r => exact .bind (Session.respects_persist steps.toSteps r) fun _ => .pure _
  | find entity id => exact .bind (steps.finds entity id) fun _ => .pure _
  | resolve r association => exact .bind (Session.respects_resolve steps r association) fun _ => .pure _
  | fetch type p => exact .bind (Session.respects_fetch _ (Session.respects_fetchRecords steps p)) fun _ => .pure _
  | fetchOne type p => exact .bind (Session.respects_fetchOne _ (Session.respects_fetchRecords steps p)) fun _ => .pure _
  | fetchFirst type p => exact .bind (Session.respects_fetchFirst steps _ p) fun _ => .pure _
  | fetchPage type p => exact .bind (Session.respects_fetchPage steps _ p) fun _ => .pure _
  | fetchCount p => exact .bind (Session.respects_fetchCount (Session.respects_run steps.toSteps) p) fun _ => .pure _
  | flush => exact .bind (Session.respects_flush steps.toSteps) fun _ => .pure _
  | clear => exact .bind (detaches rfl) fun _ => .pure _
  | execute statement => exact .bind (Session.respects_run steps.toSteps statement) fun _ => .pure _

/-- A program with the sessions it has open, by name, on one store. -/
structure Program where
  heap : Heap
  store : Store
  sessions : String → Option Session

/-- A step of a program, or of the store, which may prepare any answers. -/
inductive Action where
  | create (e : Entity)
  | set (r : Ref) (field : String) (value : Value)
  | setReference (r : Ref) (association : String) (target : Option Ref)
  | answer (replies : List Reply)
  | direct (statement : Statement)
  | begin (name : String) (connection : Connection) (registry : Registry)
  | request (name : String) (request : Request)
  | commit (name : String)
  | rollback (name : String)
  | drop (name : String)

namespace Program

def start (s : Store) : Program := ⟨.empty, s, fun _ => none⟩

/-- An open session at work. -/
def work (p : Program) (name : String) : Option Work := (p.sessions name).map fun s => ⟨s, p.heap, p.store⟩

/-- A session after some work. -/
def resume (p : Program) (name : String) (w : Work) : Program :=
  ⟨w.heap, w.store, Function.update p.sessions name (some w.toSession)⟩

/-- A session that is over, with what it leaves. -/
def close (p : Program) (name : String) (left : Except Error Unit × Heap × Store) : Program :=
  ⟨left.2.1, left.2.2, Function.update p.sessions name none⟩

/-- One step. A step that fails leaves what it did until then; one of a session that is not open does nothing. -/
def step (p : Program) : Action → Program
  | .create e => { p with heap := (p.heap.allocate (.new e)).2 }
  | .set r field value => (p.heap.set r field value).toOption.elim p fun heap => { p with heap }
  | .setReference r association target =>
    (p.heap.setReference r association target).toOption.elim p fun heap => { p with heap }
  | .answer replies => { p with store := { p.store with replies } }
  | .direct statement => { p with store := (Connection.execute p.store statement).2 }
  | .begin name connection registry =>
    match connection.begin registry p.store with
    | (.ok session, store) =>
      { p with
        store := (p.sessions name).elim store fun old => old.unit.drop store
        sessions := Function.update p.sessions name (some session) }
    | (.error _, store) => { p with store }
  | .request name request => (p.work name).elim p fun w => p.resume name (leaves request.perform w)
  | .commit name => (p.work name).elim p fun w => p.close name w.commit
  | .rollback name => (p.work name).elim p fun w => p.close name w.rollback
  | .drop name => (p.work name).elim p fun w => p.close name w.drop

def run (p : Program) (actions : List Action) : Program := actions.foldl step p

/-- The states that programs get into on any store. -/
def Reachable (p : Program) : Prop := ∃ s actions, p = (start s).run actions

/-- An invariant of the start and of every step holds in every reachable state. -/
theorem Reachable.induct {P : Program → Prop} (atStart : ∀ s, P (start s)) (next : ∀ p action, P p → P (p.step action))
    {p : Program} (reach : p.Reachable) : P p := by
  obtain ⟨s, actions, rfl⟩ := reach
  have runs : ∀ actions p, P p → P (run p actions) := by
    intro actions
    induction actions with
    | nil => exact fun _ holds => holds
    | cons action rest ih => exact fun p holds => ih _ (next p action holds)
  exact runs actions _ (atStart s)

theorem reachable_start (s : Store) : (start s).Reachable := ⟨s, [], rfl⟩

theorem Reachable.run {p : Program} (reach : p.Reachable) (actions : List Action) : (p.run actions).Reachable := by
  obtain ⟨s, before, rfl⟩ := reach
  exact ⟨s, before ++ actions, List.foldl_append.symm⟩

end Program

/-- What a program does to the instances outside of its sessions' work. -/
inductive Heap.Edits (h : Heap) : Heap → Prop
  | create (e : Entity) : h.Edits (h.allocate (.new e)).2
  | set {r : Ref} {field : String} {value : Value} {k : Heap} : h.set r field value = .ok k → h.Edits k
  | setReference {r : Ref} {association : String} {target : Option Ref} {k : Heap} :
    h.setReference r association target = .ok k → h.Edits k

theorem Work.heap_endWith (w : Work) (action : SessionM Unit) : (w.endWith action).2.1 = (leaves action w).heap := by
  unfold endWith leaves
  cases action w with
  | ok _ after => rfl
  | error e after => rfl

namespace Program

/-- A session begins with no instance. -/
theorem begin_ok {c : Connection} {registry : Registry} {s store : Store} {session : Session}
    (run : c.begin registry s = (.ok session, store)) : session.identity = .empty := by
  unfold Connection.begin at run
  split at run
  · cases run
    rfl
  · cases run

theorem ok_of_toOption {ε α : Type} {x : Except ε α} {a : α} (same : x.toOption = some a) : x = .ok a := by
  cases x with
  | error e => cases same
  | ok b => exact congrArg Except.ok (Option.some.inj same)

theorem elim_cases {P : Program → Prop} {p : Program} (still : P p) {α : Type} {x : Option α} {next : α → Program}
    (taken : ∀ a, x = some a → P (next a)) : P (x.elim p next) := by
  cases x with
  | none => exact still
  | some a => exact taken a rfl

/-- What a step of a program does: it edits instances, begins a session, or lets one work, which goes on or is over
then. The work keeps what every step of a session keeps. -/
theorem step_cases {R : Work → Work → Prop} [IsPreorder Work R] (steps : Session.RowSteps R)
    (detaches : Respects R Session.detachAll) {P : Program → Prop} {p : Program} (action : Action)
    (still : ∀ store, P { p with store }) (edited : ∀ heap, p.heap.Edits heap → P { p with heap })
    (begun : ∀ name (s : Session) store, s.identity = .empty →
      P { p with store, sessions := Function.update p.sessions name (some s) })
    (worked : ∀ name w after (next : Option Session) store, p.work name = some w → R w after →
      (∀ s ∈ next, s = after.toSession) → P ⟨after.heap, store, Function.update p.sessions name next⟩) :
    P (p.step action) := by
  have ended {name : String} {w : Work} (opened : p.work name = some w) {act : SessionM Unit}
      (kept : Respects R act) : P (p.close name (w.endWith act)) := by
    unfold close
    rw [Work.heap_endWith]
    exact worked name w _ none _ opened (kept w) fun _ none => nomatch none
  cases action with
  | create e => exact edited _ (.create e)
  | set r field value =>
    exact elim_cases (still p.store) fun heap run => edited heap (.set (ok_of_toOption run))
  | setReference r association target =>
    exact elim_cases (still p.store) fun heap run => edited heap (.setReference (ok_of_toOption run))
  | answer replies => exact still _
  | direct statement => exact still _
  | «begin» name connection registry =>
    unfold Program.step
    dsimp only
    split
    case h_1 session store run => exact begun name session _ (begin_ok run)
    case h_2 => exact still _
  | request name request =>
    refine elim_cases (still p.store) fun w opened => ?_
    have kept := request.respects_perform steps fun _ => detaches
    exact worked name w _ _ _ opened (kept w) fun _ same => (Option.some.inj same).symm
  | commit name =>
    exact elim_cases (still p.store) fun w opened => ended opened (Session.respects_commit steps.toSteps detaches)
  | rollback name =>
    exact elim_cases (still p.store) fun w opened => ended opened (Session.respects_rollback steps.toSteps detaches)
  | drop name => exact elim_cases (still p.store) fun w opened => ended opened (.pure ())

end Program

end EntityMapper
