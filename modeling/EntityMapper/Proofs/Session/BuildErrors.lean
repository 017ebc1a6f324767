import EntityMapper.Proofs.Session.Continuity

namespace EntityMapper

/-- No build error is the result. -/
def Except.BuildSafe {α : Type} (x : Except Error α) : Prop := ∀ e, x = .error e → e.isBuildError = false

namespace Except.BuildSafe

variable {α β : Type}

theorem ok (a : α) : BuildSafe (.ok a) := fun _ run => nomatch run

theorem error {e : Error} (safe : e.isBuildError = false) : BuildSafe (.error e : Except Error α) := by
  intro e' run
  cases run
  exact safe

theorem bind {x : Except Error α} {f : α → Except Error β} (first : BuildSafe x) (next : ∀ a, BuildSafe (f a)) :
    BuildSafe (x >>= f) := by
  intro e run
  rcases Except.bind_eq_error run with failed | ⟨a, _, failed⟩
  · exact first e failed
  · exact next a e failed

theorem map {x : Except Error α} (first : BuildSafe x) (f : α → β) : BuildSafe (f <$> x) := by
  cases x with
  | ok a => exact ok (f a)
  | error e => exact error (first e rfl)

theorem elim {o : Option α} {e : Error} {f : α → Except Error β} (safe : e.isBuildError = false)
    (next : ∀ a, BuildSafe (f a)) : BuildSafe (o.elim (.error e) f) := by
  cases o with
  | none => exact error safe
  | some a => exact next a

theorem mapM {f : α → Except Error β} (safe : ∀ a, BuildSafe (f a)) (xs : List α) : BuildSafe (xs.mapM f) := by
  intro e run
  obtain ⟨a, _, failed⟩ := Except.mapM_error run
  exact safe a e failed

end Except.BuildSafe

/-- What cannot be brought to a type is found in the answer of the store. -/
theorem DataType.safe_coerce (type : DataType) (v : Value) : Except.BuildSafe (type.coerce v) := by
  unfold coerce
  dsimp only
  split
  all_goals first
    | exact .ok _
    | exact .error rfl
    | exact .elim rfl fun _ => .ok _

theorem HostType.safe_convert (type : HostType) (v : Value) : Except.BuildSafe (type.convert v) := by
  have fits (i : Int64) : Except.BuildSafe
      (if fitsInt32 i then .ok (.int i) else .error (.decode type.name v.shown) : Except Error Value) := by
    split
    · exact .ok _
    · exact .error rfl
  unfold convert
  dsimp only
  split
  all_goals first
    | exact .ok _
    | exact .error rfl
    | exact .elim rfl fun _ => .ok _
    | exact fits _
    | exact .elim rfl fits

namespace Record

theorem safe_toValue (r : Record) : Except.BuildSafe r.toValue := by
  unfold toValue
  split
  · exact .ok _
  · exact .error rfl

theorem safe_toEntity (r : Record) : Except.BuildSafe r.toEntity := by
  unfold toEntity
  split
  · exact .ok _
  · exact .error rfl
  · exact .error rfl

theorem safe_decode (type : ResultType) (r : Record) : Except.BuildSafe (type.decode r) := by
  cases type with
  | record => exact .ok _
  | value => exact r.safe_toValue.map _
  | entity => exact r.safe_toEntity.map _
  | optionalEntity =>
    refine .map ?_ _
    unfold toEntity?
    split
    · exact .ok _
    · exact .error rfl
  | tuple =>
    refine .map ?_ _
    unfold toTuple
    split
    · exact .ok _
    · exact .error rfl
  | scalar host => exact .map (.bind r.safe_toValue host.safe_convert) _
  | optionalScalar host =>
    refine .map (.bind r.safe_toValue fun v => ?_) _
    split
    · exact .ok _
    · exact .bind (host.safe_convert v) fun _ => .ok _

end Record

theorem Session.safe_countOf (rows : RowSet) : Except.BuildSafe (countOf rows) := by
  refine .bind (HostType.safe_convert _ _) fun v => ?_
  split
  · split
    · exact .error rfl
    · exact .ok _
  · exact .error rfl

section

variable {σ α β : Type}

/-- The action never fails with a build error. -/
def BuildSafe (m : EStateM Error σ α) : Prop := ∀ s e after, m s = .error e after → e.isBuildError = false

namespace BuildSafe

theorem pure (a : α) : BuildSafe (pure a : EStateM Error σ α) := fun _ _ _ run => nomatch run

theorem throw {e : Error} (safe : e.isBuildError = false) : BuildSafe (throw e : EStateM Error σ α) := by
  intro s e' after run
  cases run
  exact safe

theorem bind {m : EStateM Error σ α} {f : α → EStateM Error σ β} (first : BuildSafe m) (next : ∀ a, BuildSafe (f a)) :
    BuildSafe (m >>= f) := by
  intro s e after run
  rcases bind_error run with failed | ⟨a, middle, _, failed⟩
  · exact first s e after failed
  · exact next a middle e after failed

theorem get : BuildSafe (MonadState.get : EStateM Error σ σ) := fun _ _ _ run => nomatch run

theorem modify (f : σ → σ) : BuildSafe (modify f : EStateM Error σ Unit) := fun _ _ _ run => nomatch run

end BuildSafe

end

/-- From this state on the action meets build errors before its first statement only. -/
def RefusesEarly {α : Type} (m : SessionM α) (w : Work) : Prop :=
  ∀ e after, m w = .error e after → e.isBuildError = true → after.store.calls = w.store.calls

namespace RefusesEarly

variable {α β : Type} {m : SessionM α} {f : α → SessionM β} {w : Work}

theorem of_safe (safe : BuildSafe m) (w : Work) : RefusesEarly m w := by
  intro e after run build
  rw [safe w e after run] at build
  cases build

/-- Nothing but the first part can refuse. -/
theorem bind_safe (safe : ∀ a, BuildSafe (f a)) : RefusesEarly (m >>= f) w ↔ RefusesEarly m w := by
  constructor
  · intro early e after run build
    refine early e after ?_ build
    rw [bind_run, run]
  · intro early e after run build
    rcases bind_error run with failed | ⟨a, middle, _, failed⟩
    · exact early e after failed build
    · rw [safe a middle e after failed] at build
      cases build

theorem bind_silent (first : RefusesEarly m w)
    (next : ∀ a middle, m w = .ok a middle → middle.store.calls = w.store.calls ∧ RefusesEarly (f a) middle) :
    RefusesEarly (m >>= f) w := by
  intro e after run build
  rcases bind_error run with failed | ⟨a, middle, went, failed⟩
  · exact first e after failed build
  · obtain ⟨silent, early⟩ := next a middle went
    rw [early e after failed build, silent]

/-- A check comes before everything that follows it. -/
theorem check_bind {x : Except Error α} (next : ∀ a, x = .ok a → RefusesEarly (f a) w) :
    RefusesEarly (Session.check x >>= f) w := by
  cases x with
  | ok a => exact next a rfl
  | error e =>
    intro e' after run _
    cases run
    rfl

theorem check_bind_ok {x : Except Error α} {a : α} (same : x = .ok a) :
    RefusesEarly (Session.check x >>= f) w ↔ RefusesEarly (f a) w := by
  subst same
  rfl

theorem get_bind {f : Work → SessionM β} : RefusesEarly (MonadState.get >>= f) w ↔ RefusesEarly (f w) w := Iff.rfl

end RefusesEarly

/-- Nothing has reached the store, nor has anything been heard of it. -/
def Work.Silent (w after : Work) : Prop := after.store = w.store

open Work (Silent)

instance : IsPreorder Work Silent where
  refl _ := rfl
  trans _ _ _ first second := second.trans first

theorem RefusesEarly.of_silent {α : Type} {m : SessionM α} (silent : Respects Silent m) (w : Work) : RefusesEarly m w := by
  intro e after run _
  have same := silent w
  rw [leaves_of_error run] at same
  exact congrArg Store.calls same

namespace Session

theorem safe_check {α : Type} {x : Except Error α} (safe : Except.BuildSafe x) : BuildSafe (check x) := by
  cases x with
  | ok a => exact .pure a
  | error e => exact .throw (safe e rfl)

theorem safe_onUnit {α : Type} {step : UnitOfWork → Store → Except Error α × UnitOfWork × Store}
    (safe : ∀ u s, Except.BuildSafe (step u s).1) : BuildSafe (onUnit step) := by
  intro w e after run
  have stepped := safe w.unit w.store
  rw [onUnit_run] at run
  rcases answered : step w.unit w.store with ⟨answer, unit, store⟩
  rw [answered] at run stepped
  cases answer with
  | ok a => cases run
  | error e' =>
    cases run
    exact stepped e rfl

end Session

theorem Store.safe_call (s : Store) (call : Call) : Except.BuildSafe (s.call call).1 := by
  unfold Store.call
  dsimp only
  split
  · exact .ok _
  · exact .ok _
  · exact .error rfl

theorem UnitOfWork.safe_execute (u : UnitOfWork) (s : Store) (statement : Statement) :
    Except.BuildSafe (u.execute s statement).1 := by
  unfold execute checkActive
  split
  case h_1 e refused =>
    split at refused
    · cases refused
    · cases refused
      exact .error rfl
  case h_2 => exact s.safe_call _

namespace Session

theorem safe_run (statement : Statement) : BuildSafe (run statement) :=
  safe_onUnit fun u s => u.safe_execute s statement

/-- A statement changes nothing but the unit of work and the store, which notes it. -/
theorem run_ok {statement : Statement} {rows : RowSet} {w after : Work} (run : run statement w = .ok rows after) :
    ∃ unit store, after = { w with unit, store } ∧ store.calls = w.store.calls ++ [.statement statement] := by
  unfold Session.run at run
  rw [onUnit_run] at run
  rcases answered : w.unit.execute w.store statement with ⟨answer, unit, store⟩
  rw [answered] at run
  cases answer with
  | error e => cases run
  | ok rows =>
    cases run
    exact ⟨unit, store, rfl, UnitOfWork.execute_ok answered⟩

end Session

end EntityMapper
