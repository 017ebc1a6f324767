import Mathlib.Data.List.Forall2
import Mathlib.Order.Defs.Unbundled
import Mathlib.Tactic.Common

namespace EntityMapper

/-- A computation that may fail goes on after another only through a success of the first. -/
theorem Except.bind_eq_ok {ε α β : Type} {m : Except ε α} {f : α → Except ε β} {b : β} :
    (m >>= f) = .ok b ↔ ∃ a, m = .ok a ∧ f a = .ok b := by
  cases m with
  | ok a =>
    constructor
    · intro run
      exact ⟨a, rfl, run⟩
    · rintro ⟨_, same, run⟩
      cases same
      exact run
  | error e =>
    constructor
    · intro run
      cases run
    · rintro ⟨_, same, _⟩
      cases same

theorem Except.ok_bind {ε α β : Type} (a : α) (f : α → Except ε β) : (Except.ok a >>= f) = f a := rfl

/-- A sequence fails in its first part or, after a success of that, in the second. -/
theorem Except.bind_eq_error {ε α β : Type} {m : Except ε α} {f : α → Except ε β} {e : ε}
    (run : (m >>= f) = .error e) : m = .error e ∨ ∃ a, m = .ok a ∧ f a = .error e := by
  cases m with
  | ok a => exact .inr ⟨a, rfl, run⟩
  | error e' =>
    cases run
    exact .inl rfl

/-- A fold fails at one of its items, behind a success of all before it. -/
theorem Except.foldlM_error_split {ε σ α : Type} {f : σ → α → Except ε σ} {xs : List α} {s : σ} {e : ε}
    (run : xs.foldlM f s = .error e) :
    ∃ before x after t, xs = before ++ x :: after ∧ before.foldlM f s = .ok t ∧ f t x = .error e := by
  induction xs generalizing s with
  | nil => cases run
  | cons x xs ih =>
    rw [List.foldlM_cons] at run
    rcases Except.bind_eq_error run with first | ⟨t, reached, later⟩
    · exact ⟨[], x, xs, s, rfl, rfl, first⟩
    · obtain ⟨before, x', after, t', split, passed, failed⟩ := ih later
      refine ⟨x :: before, x', after, t', by rw [split, List.cons_append], ?_, failed⟩
      rw [List.foldlM_cons]
      exact Except.bind_eq_ok.mpr ⟨t, reached, passed⟩

theorem Except.foldlM_error {ε σ α : Type} {f : σ → α → Except ε σ} {xs : List α} {s : σ} {e : ε}
    (run : xs.foldlM f s = .error e) : ∃ x ∈ xs, ∃ t, f t x = .error e := by
  obtain ⟨before, x, after, t, split, _, failed⟩ := Except.foldlM_error_split run
  exact ⟨x, split ▸ List.mem_append_right _ List.mem_cons_self, t, failed⟩

theorem Except.mapM_eq_ok {ε α β : Type} {f : α → Except ε β} {xs : List α} {ys : List β} :
    xs.mapM f = .ok ys ↔ List.Forall₂ (fun x y => f x = .ok y) xs ys := by
  induction xs generalizing ys with
  | nil =>
    rw [List.mapM_nil, List.forall₂_nil_left_iff]
    constructor
    · intro run
      cases run
      rfl
    · rintro rfl
      rfl
  | cons x xs ih =>
    rw [List.mapM_cons, Except.bind_eq_ok, List.forall₂_cons_left_iff]
    constructor
    · rintro ⟨y, first, run⟩
      obtain ⟨rest, later, run⟩ := Except.bind_eq_ok.mp run
      cases run
      exact ⟨y, rest, first, ih.mp later, rfl⟩
    · rintro ⟨y, rest, first, later, rfl⟩
      exact ⟨y, first, Except.bind_eq_ok.mpr ⟨rest, ih.mpr later, rfl⟩⟩

/-- Of two rows whose members are related one by one, each member of the first has one in the second. -/
theorem exists_of_forall₂ {α β : Type} {R : α → β → Prop} {xs : List α} {ys : List β} (each : List.Forall₂ R xs ys)
    {x : α} (member : x ∈ xs) : ∃ y ∈ ys, R x y := by
  induction each with
  | nil => exact absurd member List.not_mem_nil
  | cons first _ ih =>
    rcases List.mem_cons.mp member with rfl | other
    · exact ⟨_, List.mem_cons_self, first⟩
    · obtain ⟨y, inside, related⟩ := ih other
      exact ⟨y, List.mem_cons_of_mem _ inside, related⟩

theorem Except.mem_of_mapM {ε α β : Type} {f : α → Except ε β} {xs : List α} {ys : List β} (run : xs.mapM f = .ok ys)
    {y : β} (member : y ∈ ys) : ∃ x ∈ xs, f x = .ok y :=
  exists_of_forall₂ (R := fun y x => f x = .ok y) (Except.mapM_eq_ok.mp run).flip member

theorem Except.ok_of_mapM {ε α β : Type} {f : α → Except ε β} {xs : List α} {ys : List β} (run : xs.mapM f = .ok ys)
    {x : α} (member : x ∈ xs) : ∃ y ∈ ys, f x = .ok y :=
  exists_of_forall₂ (Except.mapM_eq_ok.mp run) member

theorem Except.mapM_error {ε α β : Type} {f : α → Except ε β} {xs : List α} {e : ε} (run : xs.mapM f = .error e) :
    ∃ x ∈ xs, f x = .error e := by
  induction xs with
  | nil => cases run
  | cons x xs ih =>
    rw [List.mapM_cons] at run
    cases first : f x with
    | error e' =>
      rw [first] at run
      cases run
      exact ⟨x, List.mem_cons_self, first⟩
    | ok y =>
      rw [first] at run
      cases later : xs.mapM f with
      | error e' =>
        have same : Except.error e' = Except.error (α := List β) e := by
          simpa [later, bind, Except.bind] using run
        cases same
        obtain ⟨x', inside, failed⟩ := ih later
        exact ⟨x', List.mem_cons_of_mem _ inside, failed⟩
      | ok rest =>
        rw [Except.ok_bind, later] at run
        cases run

/-- Checks in a row pass when each of them does. -/
theorem Except.forM_eq_ok {ε α : Type} {f : α → Except ε Unit} {xs : List α} :
    xs.forM f = .ok () ↔ ∀ x ∈ xs, f x = .ok () := by
  induction xs with
  | nil => exact ⟨fun _ _ none => absurd none List.not_mem_nil, fun _ => rfl⟩
  | cons x xs ih =>
    rw [List.forM_eq_forM, List.forM_cons, Except.bind_eq_ok, List.forall_mem_cons, ← ih]
    exact ⟨fun ⟨_, first, later⟩ => ⟨first, later⟩, fun ⟨first, later⟩ => ⟨(), first, later⟩⟩

/-- Checks in a row fail at one of them, behind a success of all before it. -/
theorem Except.forM_error_split {ε α : Type} {f : α → Except ε Unit} {xs : List α} {e : ε} (run : xs.forM f = .error e) :
    ∃ before x after, xs = before ++ x :: after ∧ (∀ y ∈ before, f y = .ok ()) ∧ f x = .error e := by
  induction xs with
  | nil => cases run
  | cons x xs ih =>
    rw [List.forM_eq_forM, List.forM_cons] at run
    rcases Except.bind_eq_error run with first | ⟨_, passed, later⟩
    · exact ⟨[], x, xs, rfl, fun _ none => absurd none List.not_mem_nil, first⟩
    · obtain ⟨before, y, after, split, passes, failed⟩ := ih later
      exact ⟨x :: before, y, after, by rw [split, List.cons_append], List.forall_mem_cons.mpr ⟨passed, passes⟩, failed⟩

variable {ε σ α β : Type} {R S : σ → σ → Prop} {P : σ → Prop}

/-- The state that an action leaves, whether it succeeds or fails. -/
def leaves (m : EStateM ε σ α) (s : σ) : σ :=
  match m s with
  | .ok _ after => after
  | .error _ after => after

/-- The action relates every state to the one that it leaves. -/
def Respects (R : σ → σ → Prop) (m : EStateM ε σ α) : Prop := ∀ s, R s (leaves m s)

/-- From states of one kind, what the action returns and the state it leaves then belong together. -/
def Yields (P : σ → Prop) (m : EStateM ε σ α) (Q : α → σ → Prop) : Prop :=
  ∀ s a after, P s → m s = .ok a after → Q a after

theorem leaves_of_ok {m : EStateM ε σ α} {s after : σ} {a : α} (run : m s = .ok a after) : leaves m s = after := by
  simp only [leaves, run]

theorem leaves_of_error {m : EStateM ε σ α} {s after : σ} {e : ε} (run : m s = .error e after) :
    leaves m s = after := by
  simp only [leaves, run]

theorem ok_of_isSome {m : EStateM ε σ α} {s : σ} (answers : (m.run' s).isSome = true) :
    ∃ a, m s = .ok a (leaves m s) := by
  cases run : m s with
  | ok a after => exact ⟨a, by rw [leaves_of_ok run]⟩
  | error e after =>
    have outcome : (match m s with
        | .ok a _ => some a
        | .error _ _ => none).isSome = true := answers
    rw [run] at outcome
    cases outcome

theorem bind_run (m : EStateM ε σ α) (f : α → EStateM ε σ β) (s : σ) :
    (m >>= f) s = match m s with
      | .ok a after => f a after
      | .error e after => .error e after := rfl

theorem get_run (s : σ) : (MonadState.get : EStateM ε σ σ) s = .ok s s := rfl

theorem set_run (s after : σ) : (set after : EStateM ε σ PUnit) s = .ok ⟨⟩ after := rfl

theorem leaves_bind_of_ok {m : EStateM ε σ α} {f : α → EStateM ε σ β} {s middle : σ} {a : α}
    (run : m s = .ok a middle) : leaves (m >>= f) s = leaves (f a) middle := by
  simp only [leaves, bind_run, run]

theorem leaves_bind_of_error {m : EStateM ε σ α} {f : α → EStateM ε σ β} {s middle : σ} {e : ε}
    (run : m s = .error e middle) : leaves (m >>= f) s = middle := by
  simp only [leaves, bind_run, run]

theorem leaves_bind_pure (m : EStateM ε σ α) (f : α → β) (s : σ) :
    leaves (m >>= fun a => (pure (f a) : EStateM ε σ β)) s = leaves m s := by
  simp only [leaves, bind_run]
  cases m s with
  | ok a middle => rfl
  | error e middle => rfl

/-- An action that goes on after another succeeds only through a success of the first. -/
theorem bind_ok {m : EStateM ε σ α} {f : α → EStateM ε σ β} {s after : σ} {b : β}
    (run : (m >>= f) s = .ok b after) : ∃ a middle, m s = .ok a middle ∧ f a middle = .ok b after := by
  rw [bind_run] at run
  split at run
  · exact ⟨_, _, by assumption, run⟩
  · cases run

/-- A sequence fails in its first part or, after a success of that, in the second. -/
theorem bind_error {m : EStateM ε σ α} {f : α → EStateM ε σ β} {s after : σ} {e : ε}
    (run : (m >>= f) s = .error e after) :
    m s = .error e after ∨ ∃ a middle, m s = .ok a middle ∧ f a middle = .error e after := by
  rw [bind_run] at run
  split at run
  · exact .inr ⟨_, _, by assumption, run⟩
  · cases run
    exact .inl (by assumption)

theorem Respects.mono {m : EStateM ε σ α} (kept : Respects R m) (weaker : ∀ a b, R a b → S a b) : Respects S m :=
  fun s => weaker _ _ (kept s)

theorem Respects.pure [Std.Refl R] (a : α) : Respects R (pure a : EStateM ε σ α) := fun s => refl_of R s

theorem Respects.throw [Std.Refl R] (e : ε) : Respects R (throw e : EStateM ε σ α) := fun s => refl_of R s

theorem Respects.get [Std.Refl R] : Respects R (MonadState.get : EStateM ε σ σ) := fun s => refl_of R s

theorem Respects.modify {f : σ → σ} (related : ∀ s, R s (f s)) : Respects R (modify f : EStateM ε σ Unit) := related

/-- What follows a read of the state is asked for that state only. -/
theorem Respects.get_bind {f : σ → EStateM ε σ α} (next : ∀ s, R s (leaves (f s) s)) :
    Respects R (MonadState.get >>= f) := next

/-- Two actions in a row take a state where the second takes what the first makes of it, or where the first takes it if
that fails. -/
theorem Respects.seq {T : σ → σ → Prop} {m : EStateM ε σ α} {f : α → EStateM ε σ β} (first : Respects R m)
    (next : ∀ a, Respects S (f a)) (joined : ∀ a b c, R a b → S b c → T a c) (alone : ∀ a b, R a b → T a b) :
    Respects T (m >>= f) := by
  intro s
  have start := first s
  simp only [leaves, bind_run] at start ⊢
  cases run : m s with
  | ok a middle =>
    simp only [run] at start ⊢
    exact joined _ _ _ start (next a middle)
  | error e middle =>
    simp only [run] at start ⊢
    exact alone _ _ start

theorem Respects.bind [IsTrans σ R] {m : EStateM ε σ α} {f : α → EStateM ε σ β} (first : Respects R m)
    (next : ∀ a, Respects R (f a)) : Respects R (m >>= f) :=
  first.seq next (fun _ _ _ => trans_of R) fun _ _ => id

/-- What follows a success is asked for the results that the first action returns. -/
theorem Respects.bind_yields [IsTrans σ R] {m : EStateM ε σ α} {f : α → EStateM ε σ β} {Q : α → Prop}
    (first : Respects R m) (yields : Yields (fun _ => True) m fun a _ => Q a) (next : ∀ a, Q a → Respects R (f a)) :
    Respects R (m >>= f) := by
  intro s
  have start := first s
  cases run : m s with
  | ok a middle =>
    rw [leaves_of_ok run] at start
    rw [leaves_bind_of_ok run]
    exact trans_of R start (next a (yields s a middle True.intro run) middle)
  | error e middle =>
    rw [leaves_of_error run] at start
    rwa [leaves_bind_of_error run]

theorem Yields.mono {m : EStateM ε σ α} {P P' : σ → Prop} {Q Q' : α → σ → Prop} (yield : Yields P m Q)
    (stronger : ∀ s, P' s → P s) (weaker : ∀ a s, Q a s → Q' a s) : Yields P' m Q' :=
  fun s a after before run => weaker _ _ (yield s a after (stronger s before) run)

theorem Yields.pure {Q : α → σ → Prop} {a : α} (holds : ∀ s, P s → Q a s) :
    Yields P (pure a : EStateM ε σ α) Q := by
  intro s b after before run
  cases run
  exact holds s before

theorem Yields.trivial (m : EStateM ε σ α) : Yields P m fun _ _ => True := fun _ _ _ _ _ => True.intro

theorem Yields.throw {Q : α → σ → Prop} (e : ε) : Yields P (throw e : EStateM ε σ α) Q := by
  intro s a after _ run
  cases run

theorem Yields.bind {m : EStateM ε σ α} {f : α → EStateM ε σ β} {Q : α → σ → Prop} {Q' : β → σ → Prop}
    (first : Yields P m Q) (next : ∀ a, Yields (Q a) (f a) Q') : Yields P (m >>= f) Q' := by
  intro s b after before run
  obtain ⟨a, middle, start, rest⟩ := bind_ok run
  exact next a middle b after (first s a middle before start) rest

theorem Yields.get_bind {f : σ → EStateM ε σ α} {Q : α → σ → Prop} (next : ∀ s, Yields (fun t => t = s ∧ P s) (f s) Q) :
    Yields P (MonadState.get >>= f) Q :=
  fun s a after before run => next s s a after ⟨rfl, before⟩ run

/-- A property that passes from related state to related state is still there after the action. -/
theorem Respects.yields {m : EStateM ε σ α} (kept : Respects R m) (stable : ∀ s after, R s after → P s → P after) :
    Yields P m fun _ => P := by
  intro s a after before run
  have related := kept s
  rw [leaves_of_ok run] at related
  exact stable s after related before

theorem Yields.and {m : EStateM ε σ α} {P P' : σ → Prop} {Q Q' : α → σ → Prop} (left : Yields P m Q)
    (right : Yields P' m Q') : Yields (fun s => P s ∧ P' s) m fun a s => Q a s ∧ Q' a s :=
  fun s a after before run => ⟨left s a after before.1 run, right s a after before.2 run⟩

end EntityMapper
