import EntityMapper.Proofs.Session.OneInstance

namespace EntityMapper

/-- The instance that a loaded association to one leads to. -/
def AssociationState.target? : AssociationState → Option Ref
  | one target => target
  | _ => none

/-- A property that new instances and instances made of rows with a primary key have, and that no change of an instance
takes away. An association changes by being loaded. -/
structure Instance.Lasting (P : Instance → Prop) : Prop where
  blank : P default
  new : ∀ e, P (.new e)
  read : ∀ e id columns i, e.primaryKey.type.coerce (columns.getD e.key .null) = .ok id → id.isNull = false →
    Hydration.instanceOf e id columns = .ok i → P i
  state : ∀ i index state, state.isLoaded = true → P i → P (i.withState index state)
  clean : ∀ (i : Instance) managed, P i → P { i with managed, dirty := [] }
  keyed : ∀ i j key, i.assignKey key = .ok j → P i → P j
  set : ∀ i j field value, i.set field value = .ok j → P i → P j
  touch : ∀ i a, a ∈ i.entity.associations → a.isOwning = true → P i → P (i.touch a.ownerColumn)

theorem Instance.states_touch (i : Instance) (column : String) : (i.touch column).states = i.states := by
  unfold touch
  split
  · rfl
  · rfl

variable {P : Instance → Prop}

namespace Instance.Lasting

theorem fill (lasting : Lasting P) {i : Instance} (holds : P i) (index : Nat) {state : AssociationState}
    (loaded : state.isLoaded = true) : P (i.fill index state) := by
  unfold Instance.fill
  split
  · exact holds
  · exact lasting.state i index state loaded holds

theorem addItem (lasting : Lasting P) {i : Instance} (holds : P i) (index : Nat) (item : Ref) :
    P (i.addItem index item) := by
  unfold Instance.addItem
  split
  · split
    · exact holds
    · exact lasting.state i index _ rfl holds
  · exact holds

theorem link (lasting : Lasting P) {i : Instance} (holds : P i) (owning : Association) (owner : Ref) :
    P (i.link owning owner) := by
  unfold Instance.link
  split
  · exact holds
  · split
    · exact lasting.addItem holds _ owner
    · exact lasting.state i _ _ rfl holds
    · exact holds

theorem unlink (lasting : Lasting P) {i : Instance} (holds : P i) (owning : Association) (owner : Ref) :
    P (i.unlink owning owner) := by
  unfold Instance.unlink
  split
  · exact holds
  · split
    · exact lasting.state i _ _ rfl holds
    · split
      · exact lasting.state i _ _ rfl holds
      · exact holds
    · exact holds

end Instance.Lasting

namespace Heap

/-- The instance changes when one of its associations is pointed at a target, or at none. -/
def pointed (h : Heap) (r : Ref) (index : Nat) (owning : Association) (target : Option Ref) : Heap :=
  h.modify r fun i => (i.touch owning.ownerColumn).withState index (.one target)

/-- The inverse sides of the old and of the new target follow. -/
def followed (h : Heap) (r : Ref) (owning : Association) (old target : Option Ref) : Heap :=
  let unlinked := old.elim h fun s => h.modify s (·.unlink owning r)
  target.elim unlinked fun t => unlinked.modify t (·.link owning r)

theorem setReference_run {h k : Heap} {r : Ref} {association : String} {target : Option Ref}
    (run : h.setReference r association target = .ok k) :
    ∃ index owning, (h.get r).entity.associationIndex association = .ok index ∧
      (h.get r).entity.associations[index]? = some owning ∧ owning.isOwning = true ∧
      k = (h.pointed r index owning target).followed r owning ((h.get r).stateAt index).target? target := by
  obtain ⟨index, found, run⟩ := Except.bind_eq_ok.mp run
  have declared := Instance.association_of_associationIndex found
  generalize (h.get r).entity.associations.getD index default = owning at run declared
  dsimp only at run
  split at run
  case isTrue => cases run
  case isFalse side =>
    have owns : owning.isOwning = true := by simpa using side
    refine ⟨index, owning, found, declared, owns, ?_⟩
    unfold followed pointed
    cases target with
    | none =>
      cases run
      rcases (h.get r).stateAt index with _ | (_ | _) | _ <;> rfl
    | some t =>
      split at run
      · cases run
      · cases run
        rcases (h.get r).stateAt index with _ | (_ | _) | _ <;> rfl

theorem setReference_ok {h k : Heap} {r : Ref} {association : String} {target : Option Ref}
    (run : h.setReference r association target = .ok k) :
    ∃ index owning old, (h.get r).entity.associationIndex association = .ok index ∧
      (h.get r).entity.associations[index]? = some owning ∧ owning.isOwning = true ∧
      k = (h.pointed r index owning target).followed r owning old target := by
  obtain ⟨index, owning, found, declared, owns, left⟩ := setReference_run run
  exact ⟨index, owning, _, found, declared, owns, left⟩

/-- The inverse sides follow by changes that keep a relation between instances. -/
theorem followed_related {R : Instance → Instance → Prop} (same : ∀ i, R i i)
    (trans : ∀ i j k, R i j → R j k → R i k) (linked : ∀ i owning owner, R i (Instance.link i owning owner))
    (unlinked : ∀ i owning owner, R i (Instance.unlink i owning owner)) (h : Heap) (r : Ref) (owning : Association)
    (old target : Option Ref) (s : Ref) : R (h.get s) ((h.followed r owning old target).get s) := by
  have first : R (h.get s) ((old.elim h fun s => h.modify s (·.unlink owning r)).get s) := by
    cases old with
    | none => exact same _
    | some o => exact get_modify_related same h o (unlinked _ owning r) s
  cases target with
  | none => exact first
  | some t => exact trans _ _ _ first (get_modify_related same _ t (linked _ owning r) s)

theorem every_set (lasting : Instance.Lasting P) {h k : Heap} (every : h.Every P) {r : Ref} {field : String}
    {value : Value} (run : h.set r field value = .ok k) : k.Every P := by
  obtain ⟨changed, set, run⟩ := Except.bind_eq_ok.mp run
  cases run
  exact every_modify every r fun holds => lasting.set _ _ _ _ set holds

theorem every_setReference (lasting : Instance.Lasting P) {h k : Heap} (every : h.Every P) {r : Ref}
    {association : String} {target : Option Ref} (run : h.setReference r association target = .ok k) : k.Every P := by
  obtain ⟨index, owning, old, _, declared, owns, rfl⟩ := setReference_ok run
  have member : owning ∈ (h.get r).entity.associations := List.mem_of_getElem? declared
  have pointed : (h.pointed r index owning target).Every P := every_modify every r fun holds =>
    lasting.state _ index _ rfl (lasting.touch _ owning member owns holds)
  refine fun s => followed_related (R := fun i j => P i → P j) (fun _ => id) (fun _ _ _ first second => second ∘ first)
    (fun _ owning owner holds => lasting.link holds owning owner)
    (fun _ owning owner holds => lasting.unlink holds owning owner) _ r owning old target s (pointed s)

theorem every_edits (lasting : Instance.Lasting P) {h k : Heap} (every : h.Every P) (edits : h.Edits k) :
    k.Every P := by
  cases edits with
  | create e => exact every_allocate every lasting.blank (lasting.new e)
  | set run => exact every_set lasting every run
  | setReference run => exact every_setReference lasting every run

end Heap

namespace Hydration

/-- A property of all instances is passed on. -/
def Passes (P : Instance → Prop) (h k : Hydration) : Prop := h.heap.Every P → k.heap.Every P

instance : IsPreorder Hydration (Passes P) where
  refl _ := id
  trans _ _ _ first second := second ∘ first

theorem passes_modifyInstance (r : Ref) {change : Instance → Instance} (kept : ∀ i, P i → P (change i)) :
    Respects (Passes P) (modifyInstance r change) :=
  .modify fun _ every => Heap.every_modify every r (kept _)

variable (lasting : Instance.Lasting P)

include lasting

theorem passes_entity (e : Entity) (columns : List Value) : Respects (Passes P) (entity e columns) :=
  respects_entity_of e columns fun id _ i coerced usable read _ every =>
    Heap.every_allocate every lasting.blank (lasting.read e id columns i coerced usable read)

theorem passes_recordsOf (layout : Layout) (rows : List (List Value)) :
    Respects (Passes P) (recordsOf layout rows) := by
  refine respects_recordsOf_of (passes_entity lasting) ⟨fun r index state loaded => ?_, fun r index item => ?_, ?_⟩ layout
    rows
  · exact passes_modifyInstance r fun i holds => lasting.fill holds index loaded
  · exact passes_modifyInstance r fun i holds => lasting.addItem holds index item
  · exact fun _ _ => id

end Hydration

namespace Session

/-- A property of all instances is passed on. -/
def Passes (P : Instance → Prop) (w after : Work) : Prop := w.heap.Every P → after.heap.Every P

instance : IsPreorder Work (Passes P) where
  refl _ := id
  trans _ _ _ first second := second ∘ first

variable (lasting : Instance.Lasting P)

include lasting

theorem steps_passes : RowSteps (Passes P) where
  called _ _ _ := id
  made _ e every := Heap.every_allocate every lasting.blank (lasting.new e)
  written w r every := Heap.every_modify every r fun holds => lasting.clean _ (w.heap.get r).managed holds
  settled w r key? _ every := by
    refine heap_settle (motive := fun h => h.Every P) r key? w every (fun change same => ?_)
      fun change key keyed assigned same => ?_
    · refine Heap.every_modify every r fun holds => ?_
      rw [same]
      exact lasting.clean _ true holds
    · refine Heap.every_modify every r fun holds => ?_
      rw [same]
      exact lasting.clean _ true (lasting.keyed _ _ key assigned holds)
  read layout rows w every := by
    rw [heap_hydrate]
    exact Hydration.passes_recordsOf lasting layout rows ⟨w.heap, w.identity, [], []⟩ every
  filled _ r index _ loaded every := Heap.every_modify every r fun holds => lasting.fill holds index loaded

theorem passes_detachAll : Respects (Passes P) detachAll :=
  .modify fun _ every => List.foldlRecOn (motive := fun h : Heap => h.Every P) _ _ every fun _ before s _ =>
    Heap.every_modify before s (lasting.clean _ false)

end Session

namespace Program

theorem every_step (lasting : Instance.Lasting P) {p : Program} (every : p.heap.Every P) (action : Action) :
    (p.step action).heap.Every P := by
  refine step_cases (P := fun p => p.heap.Every P) (Session.steps_passes lasting) (Session.passes_detachAll lasting)
    action (fun _ => every) (fun heap edits => Heap.every_edits lasting every edits) (fun _ _ _ _ => every)
    fun name w after next store opened passed goesOn => ?_
  obtain ⟨s, _, rfl⟩ := work_eq_some.mp opened
  exact passed every

/-- A property that lasts is a property of all instances, in every state that a program gets into. -/
theorem Reachable.every (lasting : Instance.Lasting P) {p : Program} (reach : p.Reachable) : p.heap.Every P :=
  reach.induct (P := fun p => p.heap.Every P) (fun _ _ => lasting.blank) fun _ action every =>
    every_step lasting every action

end Program

end EntityMapper
