import Mathlib.Data.List.Induction
import EntityMapper.Session.UnitOfWork

namespace EntityMapper

namespace Store

/-- Whether the answer to a call that a store is going to get is no failure. -/
def grants (s : Store) (n : Nat) : Bool :=
  match s.replies[n]? with
  | some (.failure _ _) => false
  | _ => true

/-- The store behind further calls. -/
def after (s : Store) (calls : List Call) : Store := ⟨s.replies.drop calls.length, s.calls ++ calls⟩

/-- Further calls, each with whether it succeeds. -/
def history (s : Store) (calls : List Call) : List (Call × Bool) := calls.mapIdx fun n c => (c, s.grants n)

theorem call_store (s : Store) (c : Call) : (s.call c).2 = s.after [c] := by
  obtain ⟨replies, calls⟩ := s
  rcases replies with _ | ⟨⟨rows⟩ | ⟨part, text⟩, rest⟩
  · rfl
  · rfl
  · rfl

/-- A call succeeds with rows or fails with an error, as the next answer says. -/
theorem call_answer (s : Store) (c : Call) :
    (s.grants 0 = true ∧ ∃ rows, s.call c = (.ok rows, s.after [c])) ∨
      (s.grants 0 = false ∧ ∃ e, s.call c = (.error e, s.after [c])) := by
  obtain ⟨replies, calls⟩ := s
  rcases replies with _ | ⟨⟨rows⟩ | ⟨part, text⟩, rest⟩
  · exact .inl ⟨rfl, _, rfl⟩
  · exact .inl ⟨rfl, rows, rfl⟩
  · exact .inr ⟨rfl, _, rfl⟩

@[simp] theorem after_nil (s : Store) : s.after [] = s := by
  unfold after
  rw [List.append_nil, List.length_nil, List.drop_zero]

@[simp] theorem after_after (s : Store) (calls more : List Call) :
    (s.after calls).after more = s.after (calls ++ more) := by
  simp only [after, List.drop_drop, List.length_append, List.append_assoc]

@[simp] theorem grants_after (s : Store) (calls : List Call) (n : Nat) :
    (s.after calls).grants n = s.grants (calls.length + n) := by
  simp only [after, grants, List.getElem?_drop]

theorem history_concat (s : Store) (calls : List Call) (c : Call) :
    s.history (calls ++ [c]) = s.history calls ++ [(c, s.grants calls.length)] := by
  simp only [history, List.mapIdx_concat]

end Store

namespace UnitOfWork

/-- What a unit of work is asked for. -/
inductive Step where
  | begin
  | execute (statement : Statement)
  | commit
  | rollback
  deriving DecidableEq, Repr, Inhabited

namespace Step

/-- The call of a step that gets to the store. -/
def call : Step → Call
  | begin => .begin
  | execute statement => .statement statement
  | commit => .commit
  | rollback => .rollback

/-- What a step answers where the store answers with rows. -/
def answer : Step → RowSet → Option RowSet
  | execute _, rows => some rows
  | _, _ => none

/-- How a step is refused. -/
def refusal (state : TransactionState) : Step → TransactionFault
  | begin => .alreadyBegun state
  | execute _ => .notActive "execute" state
  | commit => .notActive "commit" state
  | rollback => .notActive "roll back" state

end Step

/-- A step of a unit of work. Only a statement answers with rows. -/
def perform (u : UnitOfWork) (s : Store) : Step → Except Error (Option RowSet) × UnitOfWork × Store
  | .begin => (u.begin s).map (·.map fun _ => none) id
  | .execute statement => (u.execute s statement).map (·.map some) id
  | .commit => (u.commit s).map (·.map fun _ => none) id
  | .rollback => (u.rollback s).map (·.map fun _ => none) id

/-- Steps one after the other, whether they fail or not. -/
def run (u : UnitOfWork) (s : Store) (steps : List Step) : UnitOfWork × Store :=
  steps.foldl (fun (u, s) step => (u.perform s step).2) (u, s)

/-- Begins that fail, one that succeeds, and statements. -/
def opening (failures : Nat) (statements : List (Statement × Bool)) : List (Call × Bool) :=
  List.replicate failures (.begin, false) ++ (.begin, true) :: statements.map fun (t, ok) => (.statement t, ok)

/-- The calls of one transaction, each with whether it succeeds: begins that fail, at most one that succeeds,
statements, and at most one call that ends the transaction. -/
inductive Protocol : List (Call × Bool) → Prop
  | waiting (failures : Nat) : Protocol (List.replicate failures (.begin, false))
  | opened (failures : Nat) (statements : List (Statement × Bool)) : Protocol (opening failures statements)
  | ended (failures : Nat) (statements : List (Statement × Bool)) (last : Call) (ok : Bool)
      (ending : last = .commit ∨ last = .rollback) : Protocol (opening failures statements ++ [(last, ok)])

/-- The stage that calls lead to. A call that fails leads nowhere. -/
def stage (history : List (Call × Bool)) : TransactionState :=
  if (.commit, true) ∈ history then .committed
  else if (.rollback, true) ∈ history then .rolledBack
  else if (.begin, true) ∈ history then .active
  else .notStarted

/-- Whether calls leave room for the call of a step: a begin until one succeeds, the others from then on until a call
has ended the transaction. -/
def Admits (history : List (Call × Bool)) : Step → Prop
  | .begin => (.begin, true) ∉ history
  | _ => (.begin, true) ∈ history ∧ ∀ ok, (.commit, ok) ∉ history ∧ (.rollback, ok) ∉ history

/-- The moves between stages. -/
inductive Moves : TransactionState → TransactionState → Prop
  | stay (state : TransactionState) : Moves state state
  | opens : Moves .notStarted .active
  | commits : Moves .active .committed
  | rollsBack : Moves .active .rolledBack

theorem Moves.ends {ended : TransactionState} (moves : Moves .active ended) (ok : Bool) :
    Moves .active (if ok then ended else .active) := by
  cases ok with
  | false => exact .stay _
  | true => exact moves

/-- The unit of work that calls lead to. The call that ends a transaction takes it away, also when it fails. -/
inductive Reached : List (Call × Bool) → UnitOfWork → Prop
  | waiting (failures : Nat) : Reached (List.replicate failures (.begin, false)) ⟨.notStarted, false⟩
  | opened (failures : Nat) (statements : List (Statement × Bool)) :
      Reached (opening failures statements) ⟨.active, true⟩
  | committed (failures : Nat) (statements : List (Statement × Bool)) (ok : Bool) :
      Reached (opening failures statements ++ [(.commit, ok)]) ⟨if ok then .committed else .active, false⟩
  | rolledBack (failures : Nat) (statements : List (Statement × Bool)) (ok : Bool) :
      Reached (opening failures statements ++ [(.rollback, ok)]) ⟨if ok then .rolledBack else .active, false⟩

section Histories

variable {failures : Nat} {statements : List (Statement × Bool)} {c : Call} {ok : Bool}

@[simp] theorem mem_opening :
    (c, ok) ∈ opening failures statements ↔
      (c, ok) = (.begin, false) ∧ failures ≠ 0 ∨ (c, ok) = (.begin, true) ∨
        ∃ t, (t, ok) ∈ statements ∧ c = .statement t := by
  simp only [opening, List.mem_append, List.mem_replicate, List.mem_cons, List.mem_map, Prod.exists, Prod.mk.injEq]
  grind

theorem begin_mem_opening : (.begin, true) ∈ opening failures statements :=
  mem_opening.mpr (.inr (.inl rfl))

theorem opening_concat (t : Statement) :
    opening failures statements ++ [(.statement t, ok)] = opening failures (statements ++ [(t, ok)]) := by
  simp only [opening, List.append_assoc, List.cons_append, List.map_append, List.map_cons, List.map_nil]

theorem waiting_concat :
    List.replicate failures (Call.begin, false) ++ [(.begin, false)] =
      List.replicate (failures + 1) (.begin, false) := by
  rw [List.replicate_succ']

/-- Behind a call that ends the transaction there is room for none. -/
theorem not_admits_ended {step : Step} (ending : c = .commit ∨ c = .rollback) :
    ¬Admits (opening failures statements ++ [(c, ok)]) step := by
  have begun : (.begin, true) ∈ opening failures statements ++ [(c, ok)] := List.mem_append_left _ begin_mem_opening
  have last : (c, ok) ∈ opening failures statements ++ [(c, ok)] := List.mem_concat_self ..
  have closed : ¬∀ ok', (.commit, ok') ∉ opening failures statements ++ [(c, ok)] ∧
      (.rollback, ok') ∉ opening failures statements ++ [(c, ok)] := fun open' => by
    rcases ending with rfl | rfl
    · exact (open' ok).1 last
    · exact (open' ok).2 last
  cases step with
  | begin => exact fun room => room begun
  | execute statement => exact fun room => closed room.2
  | commit => exact fun room => closed room.2
  | rollback => exact fun room => closed room.2

end Histories

section Steps

variable (s : Store)

theorem perform_begin :
    perform ⟨.notStarted, false⟩ s .begin =
      ((s.call .begin).1.map Step.begin.answer, ⟨if s.grants 0 then .active else .notStarted, s.grants 0⟩,
        s.after [.begin]) := by
  obtain ⟨grants, rows, called⟩ | ⟨grants, e, called⟩ := s.call_answer .begin
  · simp only [perform, begin, called, grants]
    rfl
  · simp only [perform, begin, called, grants]
    rfl

theorem perform_execute (statement : Statement) :
    perform ⟨.active, true⟩ s (.execute statement) =
      ((s.call (.statement statement)).1.map (Step.execute statement).answer, ⟨.active, true⟩,
        s.after [.statement statement]) := by
  rw [← s.call_store]
  rfl

theorem finish_active (action : String) (c : Call) (ended : TransactionState) :
    finish ⟨.active, true⟩ s action c ended =
      ((s.call c).1.map fun _ => (), ⟨if s.grants 0 then ended else .active, false⟩, s.after [c]) := by
  obtain ⟨grants, rows, called⟩ | ⟨grants, e, called⟩ := s.call_answer c
  · simp only [finish, checkActive, called, grants]
    rfl
  · simp only [finish, checkActive, called, grants]
    rfl

theorem perform_commit :
    perform ⟨.active, true⟩ s .commit =
      ((s.call .commit).1.map Step.commit.answer, ⟨if s.grants 0 then .committed else .active, false⟩,
        s.after [.commit]) := by
  rw [perform, commit, finish_active]
  cases (s.call .commit).1 with
  | ok rows => rfl
  | error e => rfl

theorem perform_rollback :
    perform ⟨.active, true⟩ s .rollback =
      ((s.call .rollback).1.map Step.rollback.answer, ⟨if s.grants 0 then .rolledBack else .active, false⟩,
        s.after [.rollback]) := by
  rw [perform, rollback, finish_active]
  cases (s.call .rollback).1 with
  | ok rows => rfl
  | error e => rfl

end Steps

namespace Reached

variable {history : List (Call × Bool)} {u : UnitOfWork}

theorem protocol (reached : Reached history u) : Protocol history := by
  cases reached with
  | waiting failures => exact .waiting failures
  | opened failures statements => exact .opened failures statements
  | committed failures statements ok => exact .ended failures statements .commit ok (.inl rfl)
  | rolledBack failures statements ok => exact .ended failures statements .rollback ok (.inr rfl)

theorem state_eq (reached : Reached history u) : u.state = stage history := by
  unfold stage
  cases reached with
  | waiting failures => simp
  | opened failures statements => simp
  | committed failures statements ok => cases ok <;> simp
  | rolledBack failures statements ok => cases ok <;> simp

/-- A step that has no place in the protocol is refused and changes nothing. -/
theorem refused (reached : Reached history u) {step : Step} (s : Store) (misplaced : ¬Admits history step) :
    u.perform s step = (.error (.transaction (step.refusal u.state)), u, s) := by
  cases reached with
  | waiting failures =>
    cases step with
    | begin => exact absurd (by simp [Admits]) misplaced
    | execute statement => rfl
    | commit => rfl
    | rollback => rfl
  | opened failures statements =>
    cases step with
    | begin => rfl
    | execute statement => exact absurd ⟨begin_mem_opening, fun ok => by simp⟩ misplaced
    | commit => exact absurd ⟨begin_mem_opening, fun ok => by simp⟩ misplaced
    | rollback => exact absurd ⟨begin_mem_opening, fun ok => by simp⟩ misplaced
  | committed failures statements ok => cases ok <;> cases step <;> rfl
  | rolledBack failures statements ok => cases ok <;> cases step <;> rfl

/-- A step in its place gets to the store, answers what the store answers, and leads on. -/
theorem admitted (reached : Reached history u) {step : Step} (s : Store) (placed : Admits history step) :
    ∃ v, u.perform s step = ((s.call step.call).1.map step.answer, v, s.after [step.call]) ∧
      Reached (history ++ [(step.call, s.grants 0)]) v ∧ Moves u.state v.state := by
  cases reached with
  | waiting failures =>
    cases step with
    | begin =>
      refine ⟨_, perform_begin s, ?_⟩
      cases s.grants 0 with
      | false =>
        rw [Step.call, waiting_concat]
        exact ⟨.waiting (failures + 1), .stay _⟩
      | true => exact ⟨.opened failures [], .opens⟩
    | execute statement => exact absurd placed.1 (by simp)
    | commit => exact absurd placed.1 (by simp)
    | rollback => exact absurd placed.1 (by simp)
  | opened failures statements =>
    cases step with
    | begin => exact absurd begin_mem_opening placed
    | execute statement =>
      refine ⟨_, perform_execute s statement, ?_, .stay _⟩
      rw [Step.call, opening_concat]
      exact .opened failures _
    | commit => exact ⟨_, perform_commit s, .committed failures statements _, Moves.commits.ends _⟩
    | rollback => exact ⟨_, perform_rollback s, .rolledBack failures statements _, Moves.rollsBack.ends _⟩
  | committed failures statements ok => exact absurd placed (not_admits_ended (.inl rfl))
  | rolledBack failures statements ok => exact absurd placed (not_admits_ended (.inr rfl))

/-- Whatever is asked for, the stage stays or moves on. -/
theorem moves (reached : Reached history u) (s : Store) (step : Step) :
    Moves u.state (u.perform s step).2.1.state := by
  by_cases placed : Admits history step
  · obtain ⟨v, performed, -, moved⟩ := reached.admitted s placed
    rw [performed]
    exact moved
  · rw [reached.refused s placed]
    exact .stay _

end Reached

/-- A run makes calls in the order of the protocol, and no others. -/
theorem run_reached (s : Store) (steps : List Step) :
    ∃ calls, (run new s steps).2 = s.after calls ∧ Reached (s.history calls) (run new s steps).1 := by
  induction steps using List.reverseRecOn with
  | nil => exact ⟨[], s.after_nil.symm, .waiting 0⟩
  | append_singleton steps step ih =>
    obtain ⟨calls, store, reached⟩ := ih
    have last : run new s (steps ++ [step]) = ((run new s steps).1.perform (s.after calls) step).2 := by
      rw [run, List.foldl_append, ← store]
      rfl
    rw [last]
    by_cases placed : Admits (s.history calls) step
    · obtain ⟨v, performed, next, -⟩ := reached.admitted (s.after calls) placed
      rw [Store.grants_after, Nat.add_zero, ← Store.history_concat] at next
      rw [performed, Store.after_after]
      exact ⟨calls ++ [step.call], rfl, next⟩
    · rw [reached.refused (s.after calls) placed]
      exact ⟨calls, rfl, reached⟩

/-- A commit that fails leaves the stage active, but with nothing to commit or roll back. -/
example :
    run new ⟨[.rows .empty, .failure .transaction "lost"], []⟩ [.begin, .commit, .rollback] =
      (⟨.active, false⟩, ⟨[], [.begin, .commit]⟩) := rfl

/-- For any run on any answers of the store, the calls that get to the store are those of one transaction, the stage
is the one that they lead to, and the next step is a call exactly if they leave room for it. Otherwise it is refused
and changes nothing. A stage is left for the next one only. -/
theorem transaction_protocol (s : Store) (steps : List Step) :
    ∃ calls, (run new s steps).2.calls = s.calls ++ calls ∧ Protocol (s.history calls) ∧
      (run new s steps).1.state = stage (s.history calls) ∧
      ∀ (step : Step) (u : UnitOfWork) (t : Store), run new s steps = (u, t) →
        (Admits (s.history calls) step →
          (u.perform t step).1 = (t.call step.call).1.map step.answer ∧
          (u.perform t step).2.2 = (t.call step.call).2) ∧
        (¬Admits (s.history calls) step → u.perform t step = (.error (.transaction (step.refusal u.state)), u, t)) ∧
        Moves u.state (u.perform t step).2.1.state := by
  obtain ⟨calls, store, reached⟩ := run_reached s steps
  refine ⟨calls, ?_, reached.protocol, reached.state_eq, fun step u t ran => ?_⟩
  · rw [store]
    rfl
  · rw [ran] at reached
    refine ⟨fun placed => ?_, reached.refused t, reached.moves t step⟩
    obtain ⟨v, performed, -, -⟩ := reached.admitted t placed
    rw [performed]
    exact ⟨rfl, (t.call_store step.call).symm⟩

end UnitOfWork

end EntityMapper
