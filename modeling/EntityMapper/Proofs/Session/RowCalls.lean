import EntityMapper.Proofs.Session.Rows

namespace EntityMapper.Hydration

/-- The end of what a binding does with its fetched instance. -/
def attachTo (found : Found) (b : FetchBinding) (target : Option Ref) : HydrationM Unit :=
  match found.lookup b.owner with
  | some (some owner) => attach owner b.association target
  | _ => pure ()

theorem fetches_cons (row : List Value) (b : FetchBinding) (rest : List FetchBinding) (found : Found) :
    fetches row (b :: rest) found = (do
      let target ← entity b.target.entity ((row.drop b.offset).take b.width)
      attachTo found b target
      fetches row rest ((b.target.name, target) :: found)) := by
  rw [fetches]
  refine congrArg (_ >>= ·) (funext fun target => ?_)
  unfold attachTo
  rcases found.lookup b.owner with _ | _ | owner
  · rfl
  · rfl
  · rfl

/-- The calls of `attach` that the bindings of a row get to, each with the state that it is made in. -/
inductive AttachesRow (row : List Value) :
    List FetchBinding → Found → Hydration → Ref → Association → Option Ref → Hydration → Prop
  | here {b : FetchBinding} {rest : List FetchBinding} {found : Found} {h k : Hydration} {target : Option Ref}
      {owner : Ref} (read : entity b.target.entity ((row.drop b.offset).take b.width) h = .ok target k)
      (known : found.lookup b.owner = some (some owner)) :
      AttachesRow row (b :: rest) found h owner b.association target k
  | later {b : FetchBinding} {rest : List FetchBinding} {found : Found} {h k l call : Hydration}
      {target fetched : Option Ref} {owner : Ref} {a : Association}
      (read : entity b.target.entity ((row.drop b.offset).take b.width) h = .ok target k)
      (attached : attachTo found b target k = .ok () l)
      (next : AttachesRow row rest ((b.target.name, target) :: found) l owner a fetched call) :
      AttachesRow row (b :: rest) found h owner a fetched call

/-- The calls of `attach` that rows get to, whether a later row or binding fails or not. -/
inductive Attaches (layout : Layout) :
    List (List Value) → Hydration → Ref → Association → Option Ref → Hydration → Prop
  | here {row : List Value} {rest : List (List Value)} {h k call : Hydration} {items : List Cell} {found : Found}
      {owner : Ref} {a : Association} {target : Option Ref} (wide : ¬row.length < layout.width)
      (read : cells row layout.items [] h = .ok (items, found) k)
      (attaches : AttachesRow row layout.fetches found k owner a target call) :
      Attaches layout (row :: rest) h owner a target call
  | later {row : List Value} {rest : List (List Value)} {h k call : Hydration} {r : Record} {owner : Ref}
      {a : Association} {target : Option Ref} (made : record layout row h = .ok r k)
      (next : Attaches layout rest k owner a target call) : Attaches layout (row :: rest) h owner a target call

/-- Calls of `attach`, each with the state that it is made in. -/
abbrev Calls := Ref → Association → Option Ref → Hydration → Prop

def Calls.none : Calls := fun _ _ _ _ => False

/-- The calls of two steps. -/
def Calls.or (first next : Calls) : Calls :=
  fun owner a target call => first owner a target call ∨ next owner a target call

@[simp] theorem Calls.none_or (calls : Calls) : Calls.none.or calls = calls := by
  funext owner a target call
  exact false_or _

@[simp] theorem Calls.or_none (calls : Calls) : calls.or .none = calls := by
  funext owner a target call
  exact or_false _

/-- The one call that attaches an instance to its owner in a state. -/
def oneCall (owner : Ref) (a : Association) (target : Option Ref) (h : Hydration) : Calls :=
  fun owner' a' target' call => owner' = owner ∧ a' = a ∧ target' = target ∧ call = h

/-- The call that a binding gets to, where its owner is known. -/
def callOf (found : Found) (b : FetchBinding) (target : Option Ref) (h : Hydration) : Calls :=
  match found.lookup b.owner with
  | some (some owner) => oneCall owner b.association target h
  | _ => .none

/-- What holds between two states and the calls in between: steps add their calls up, an instance is read without any,
and what is attached has just been read. -/
structure Accumulates (A : Hydration → Calls → Hydration → Prop) : Prop where
  still : ∀ h, A h .none h
  join : ∀ {h k l first next}, A h first k → A k next l → A h (first.or next) l
  read : ∀ e columns h, A h .none (leaves (entity e columns) h)
  attached : ∀ e columns before owner a target h, entity e columns before = .ok target h →
    A h (oneCall owner a target h) (leaves (attach owner a target) h)

section Reached

variable {row : List Value} {b : FetchBinding} {rest : List FetchBinding} {found : Found} {target : Option Ref}
  {h k l : Hydration}

theorem attachesRow_nil : AttachesRow row [] found h = Calls.none := by
  funext owner a fetched call
  refine propext ⟨fun reached => ?_, False.elim⟩
  cases reached

/-- A binding whose instance cannot be read attaches nothing, nor do those behind it. -/
theorem attachesRow_unread {e : Error}
    (read : entity b.target.entity ((row.drop b.offset).take b.width) h = .error e k) :
    AttachesRow row (b :: rest) found h = Calls.none := by
  funext owner a fetched call
  refine propext ⟨fun reached => ?_, False.elim⟩
  cases reached with
  | here read' => cases read.symm.trans read'
  | later read' => cases read.symm.trans read'

theorem callOf_iff {owner : Ref} {a : Association} {fetched : Option Ref} {call : Hydration} :
    callOf found b target k owner a fetched call ↔
      found.lookup b.owner = some (some owner) ∧ a = b.association ∧ fetched = target ∧ call = k := by
  unfold callOf
  rcases found.lookup b.owner with _ | _ | known
  · exact ⟨False.elim, fun reached => by cases reached.1⟩
  · exact ⟨False.elim, fun reached => by cases reached.1⟩
  · constructor
    · rintro ⟨rfl, rest⟩
      exact ⟨rfl, rest⟩
    · rintro ⟨same, rest⟩
      cases same
      exact ⟨rfl, rest⟩

/-- Behind a binding that fails to attach its instance, no other one is reached. -/
theorem attachesRow_failed {e : Error}
    (read : entity b.target.entity ((row.drop b.offset).take b.width) h = .ok target k)
    (attached : attachTo found b target k = .error e l) :
    AttachesRow row (b :: rest) found h = callOf found b target k := by
  funext owner a fetched call
  rw [callOf_iff]
  refine propext ⟨fun reached => ?_, ?_⟩
  · cases reached with
    | here read' known =>
      cases read.symm.trans read'
      exact ⟨known, rfl, rfl, rfl⟩
    | later read' attached' =>
      cases read.symm.trans read'
      cases attached.symm.trans attached'
  · rintro ⟨known, rfl, rfl, rfl⟩
    exact .here read known

theorem attachesRow_cons (read : entity b.target.entity ((row.drop b.offset).take b.width) h = .ok target k)
    (attached : attachTo found b target k = .ok () l) :
    AttachesRow row (b :: rest) found h =
      (callOf found b target k).or (AttachesRow row rest ((b.target.name, target) :: found) l) := by
  funext owner a fetched call
  refine propext ⟨fun reached => ?_, ?_⟩
  · cases reached with
    | here read' known =>
      cases read.symm.trans read'
      exact .inl (callOf_iff.mpr ⟨known, rfl, rfl, rfl⟩)
    | later read' attached' next =>
      cases read.symm.trans read'
      cases attached.symm.trans attached'
      exact .inr next
  · rintro (reached | next)
    · obtain ⟨known, rfl, rfl, rfl⟩ := callOf_iff.mp reached
      exact .here read known
    · exact .later read attached next

end Reached

variable {A : Hydration → Calls → Hydration → Prop} (accumulates : Accumulates A)

include accumulates

theorem Accumulates.isPreorder : IsPreorder Hydration fun h k => A h .none k where
  refl := accumulates.still
  trans _ _ _ first second := by simpa using accumulates.join first second

theorem accumulates_attachTo (found : Found) (b : FetchBinding) {e : Entity} {columns : List Value}
    {before h : Hydration} {target : Option Ref} (read : entity e columns before = .ok target h) :
    A h (callOf found b target h) (leaves (attachTo found b target) h) := by
  unfold attachTo callOf
  split
  · exact accumulates.attached e columns before _ _ target h read
  · exact accumulates.still h

theorem accumulates_cells (row : List Value) (items : List LayoutItem) (found : Found) :
    Respects (fun h k => A h .none k) (cells row items found) := by
  have := accumulates.isPreorder
  exact respects_cells_of (fun e columns => accumulates.read e columns) row items found

theorem accumulates_fetches (row : List Value) (bindings : List FetchBinding) (found : Found) (h : Hydration) :
    A h (AttachesRow row bindings found h) (leaves (fetches row bindings found) h) := by
  induction bindings generalizing found h with
  | nil =>
    rw [attachesRow_nil]
    exact accumulates.still h
  | cons b rest ih =>
    rw [fetches_cons]
    have reading := accumulates.read b.target.entity ((row.drop b.offset).take b.width) h
    cases read : entity b.target.entity ((row.drop b.offset).take b.width) h with
    | error e k =>
      rw [leaves_of_error read] at reading
      rw [leaves_bind_of_error read, attachesRow_unread read]
      exact reading
    | ok target k =>
      rw [leaves_of_ok read] at reading
      rw [leaves_bind_of_ok read]
      have attaching := accumulates_attachTo accumulates found b read
      cases attached : attachTo found b target k with
      | error e l =>
        rw [leaves_of_error attached] at attaching
        rw [leaves_bind_of_error attached, attachesRow_failed read attached]
        simpa using accumulates.join reading attaching
      | ok u l =>
        rw [leaves_of_ok attached] at attaching
        rw [leaves_bind_of_ok attached, attachesRow_cons read attached]
        simpa using accumulates.join reading (accumulates.join attaching (ih _ l))

/-- The calls of one row. -/
def callsOfRecord (layout : Layout) (row : List Value) (h : Hydration) : Calls :=
  fun owner a target call => ¬row.length < layout.width ∧ ∃ items found k,
    cells row layout.items [] h = .ok (items, found) k ∧ AttachesRow row layout.fetches found k owner a target call

theorem accumulates_record (layout : Layout) (row : List Value) (h : Hydration) :
    A h (callsOfRecord layout row h) (leaves (record layout row) h) := by
  have nothing (none : ∀ owner a target call, ¬callsOfRecord layout row h owner a target call) :
      callsOfRecord layout row h = Calls.none := by
    funext owner a target call
    exact propext ⟨none owner a target call, False.elim⟩
  unfold record
  split
  case isTrue short =>
    rw [nothing fun _ _ _ _ reached => reached.1 short]
    exact accumulates.still h
  case isFalse wide =>
    have reading := accumulates_cells accumulates row layout.items [] h
    cases read : cells row layout.items [] h with
    | error e k =>
      rw [leaves_of_error read] at reading
      rw [leaves_bind_of_error read, nothing]
      · exact reading
      · rintro owner a target call ⟨_, items, found, k', read', _⟩
        cases read.symm.trans read'
    | ok result k =>
      obtain ⟨items, found⟩ := result
      have same : callsOfRecord layout row h = AttachesRow row layout.fetches found k := by
        funext owner a target call
        refine propext ⟨?_, fun reached => ⟨wide, items, found, k, read, reached⟩⟩
        rintro ⟨_, items', found', k', read', reached⟩
        cases read.symm.trans read'
        exact reached
      rw [leaves_of_ok read] at reading
      rw [leaves_bind_of_ok read, same]
      dsimp only
      rw [leaves_bind_pure]
      simpa using accumulates.join reading (accumulates_fetches accumulates row layout.fetches found k)

/-- Rows take a state to the one that they leave with exactly the calls that they get to. -/
theorem accumulates_recordsOf (layout : Layout) (rows : List (List Value)) (h : Hydration) :
    A h (Attaches layout rows h) (leaves (recordsOf layout rows) h) := by
  induction rows generalizing h with
  | nil =>
    have none : Attaches layout [] h = Calls.none := by
      funext owner a target call
      refine propext ⟨fun reached => ?_, False.elim⟩
      cases reached
    rw [none]
    exact accumulates.still h
  | cons row rest ih =>
    unfold recordsOf
    have first := accumulates_record accumulates layout row h
    cases made : record layout row h with
    | error e k =>
      have same : Attaches layout (row :: rest) h = callsOfRecord layout row h := by
        funext owner a target call
        refine propext ⟨fun reached => ?_, ?_⟩
        · cases reached with
          | here wide read reached => exact ⟨wide, _, _, _, read, reached⟩
          | later made' => cases made.symm.trans made'
        · rintro ⟨wide, items, found, k, read, reached⟩
          exact .here wide read reached
      rw [leaves_of_error made] at first
      rw [leaves_bind_of_error made, same]
      exact first
    | ok result k =>
      have same : Attaches layout (row :: rest) h = (callsOfRecord layout row h).or (Attaches layout rest k) := by
        funext owner a target call
        refine propext ⟨fun reached => ?_, ?_⟩
        · cases reached with
          | here wide read reached => exact .inl ⟨wide, _, _, _, read, reached⟩
          | later made' reached =>
            cases made.symm.trans made'
            exact .inr reached
        · rintro (⟨wide, items, found, k, read, reached⟩ | reached)
          · exact .here wide read reached
          · exact .later made reached
      rw [leaves_of_ok made] at first
      rw [leaves_bind_of_ok made, leaves_bind_pure, same]
      exact accumulates.join first (ih k)

end EntityMapper.Hydration
