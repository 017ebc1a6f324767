import EntityMapper.Proofs.Session.Transactions

namespace EntityMapper.UnitOfWork

/-- The stage tells whether there is a transaction in hand. -/
def Truthful (u : UnitOfWork) : Prop := u.isActive = true ↔ u.live = true

instance (u : UnitOfWork) : Decidable u.Truthful := inferInstanceAs (Decidable (_ ↔ _))

/-- The step gets to the store and answers what the store answers. -/
def Accepts (u : UnitOfWork) (s : Store) (step : Step) : Prop :=
  (u.perform s step).1 = (s.call step.call).1.map step.answer ∧ (u.perform s step).2.2 = (s.call step.call).2

/-- A transaction is given away with a call that fails. -/
def Loses (history : List (Call × Bool)) : Prop := (.commit, false) ∈ history ∨ (.rollback, false) ∈ history

/-- What gets to the store is no refusal. -/
theorem not_accepts_of_refused {u : UnitOfWork} {s : Store} {step : Step} {e : Error}
    (refused : u.perform s step = (.error e, u, s)) : ¬u.Accepts s step := by
  rintro ⟨-, called⟩
  rw [refused, s.call_store] at called
  have length : s.calls.length = (s.calls ++ [step.call]).length := congrArg (·.calls.length) called
  rw [List.length_append, List.length_singleton] at length
  omega

namespace Reached

variable {history : List (Call × Bool)} {u : UnitOfWork}

theorem isActive_of_live (reached : Reached history u) (live : u.live = true) : u.isActive = true := by
  cases reached with
  | opened failures statements => rfl
  | waiting failures => cases live
  | committed failures statements ok => cases live
  | rolledBack failures statements ok => cases live

/-- Only the failure of the call that ends a transaction leaves a stage behind that is not true. -/
theorem truthful_iff (reached : Reached history u) : u.Truthful ↔ ¬Loses history := by
  unfold Loses Truthful
  cases reached with
  | waiting failures => simp [isActive]
  | opened failures statements => simp [isActive]
  | committed failures statements ok => cases ok <;> simp [isActive]
  | rolledBack failures statements ok => cases ok <;> simp [isActive]

theorem live_iff_admits (reached : Reached history u) (statement : Statement) :
    u.live = true ↔ Admits history (.execute statement) := by
  cases reached with
  | waiting failures => exact iff_of_false Bool.false_ne_true fun placed => absurd placed.1 (by simp)
  | opened failures statements => exact iff_of_true rfl ⟨begin_mem_opening, fun ok => by simp⟩
  | committed failures statements ok => exact iff_of_false Bool.false_ne_true (not_admits_ended (.inl rfl))
  | rolledBack failures statements ok => exact iff_of_false Bool.false_ne_true (not_admits_ended (.inr rfl))

theorem accepts_iff (reached : Reached history u) (s : Store) (statement : Statement) :
    u.Accepts s (.execute statement) ↔ u.live = true := by
  rw [reached.live_iff_admits statement]
  by_cases placed : Admits history (.execute statement)
  · obtain ⟨v, performed, -, -⟩ := reached.admitted s placed
    exact iff_of_true ⟨by rw [performed], by rw [performed, s.call_store]⟩ placed
  · exact iff_of_false (not_accepts_of_refused (reached.refused s placed)) placed

/-- Where the stage is not true, it says active, and the transaction is gone. -/
theorem eq_of_not_truthful (reached : Reached history u) (untrue : ¬u.Truthful) : u = ⟨.active, false⟩ := by
  rcases u with ⟨state, _ | _⟩
  · have active : state = .active := by
      by_contra other
      exact untrue (iff_of_false (by simpa [isActive] using other) Bool.false_ne_true)
    rw [active]
  · exact absurd (iff_of_true (reached.isActive_of_live rfl) rfl) untrue

end Reached

theorem perform_lost (s : Store) (step : Step) :
    perform ⟨.active, false⟩ s step = (.error (.transaction (step.refusal .active)), ⟨.active, false⟩, s) := by
  cases step <;> rfl

/-- A unit of work that has lost its transaction stays as it is, and nothing more gets to the store. -/
theorem run_lost (s : Store) (steps : List Step) : run ⟨.active, false⟩ s steps = (⟨.active, false⟩, s) := by
  induction steps with
  | nil => rfl
  | cons step rest ih =>
    rw [run, List.foldl_cons]
    dsimp only
    rw [perform_lost]
    exact ih

/-- In any run on any answers of the store, the stage tells of the transaction in hand exactly as long as no commit and
no rollback that gets to the store fails. It is always active while there is a transaction, and a statement is accepted
exactly then. Behind such a failure the stage is active for good, and every step is refused. -/
theorem run_truthful_iff (s : Store) (steps : List Step) :
    ∃ u calls, run new s steps = (u, s.after calls) ∧
      (u.Truthful ↔ ¬Loses (s.history calls)) ∧
      (u.live = true → u.isActive = true) ∧
      (∀ statement, u.Accepts (s.after calls) (.execute statement) ↔ u.live = true) ∧
      (Loses (s.history calls) → u.isActive = true ∧ ∀ more step,
        u.run (s.after calls) more = (u, s.after calls) ∧
        u.perform (s.after calls) step = (.error (.transaction (step.refusal .active)), u, s.after calls)) := by
  obtain ⟨calls, store, reached⟩ := run_reached s steps
  refine ⟨(run new s steps).1, calls, by rw [← store], reached.truthful_iff, reached.isActive_of_live,
    reached.accepts_iff _, fun lost => ?_⟩
  have untrue : ¬(run new s steps).1.Truthful := fun truthful => reached.truthful_iff.mp truthful lost
  rw [reached.eq_of_not_truthful untrue]
  exact ⟨rfl, fun more step => ⟨run_lost _ more, perform_lost _ step⟩⟩

/-- Behind a rollback that fails the stage is active although no transaction is left to take a statement. -/
theorem active_behind_lost_rollback :
    run new ⟨[.rows .empty, .failure .transaction "gone"], []⟩ [.begin, .rollback] =
        (⟨.active, false⟩, ⟨[], [.begin, .rollback]⟩) ∧
      ¬Truthful ⟨.active, false⟩ ∧ ¬Accepts ⟨.active, false⟩ ⟨[], [.begin, .rollback]⟩ (.execute ⟨"SELECT 1", []⟩) := by
  refine ⟨rfl, by decide, not_accepts_of_refused (perform_lost _ _)⟩

end EntityMapper.UnitOfWork
