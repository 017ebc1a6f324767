import EntityMapper.Session.Hydration
import EntityMapper.Proofs.Session.Identities

namespace EntityMapper

/-- The second instance is what rows make of the first: associations that were deferred may be loaded, and nothing else
changes apart from the items of loaded ones. -/
structure Instance.Grown (i j : Instance) : Prop extends i.Alike j where
  dirty : j.dirty = i.dirty
  length : j.states.length = i.states.length
  deferred : ∀ index key, j.stateAt index = .deferred key → i.stateAt index = .deferred key

namespace Instance

theorem Grown.refl (i : Instance) : i.Grown i := ⟨.refl i, rfl, rfl, fun _ _ same => same⟩

theorem Grown.trans {i j k : Instance} (first : i.Grown j) (second : j.Grown k) : i.Grown k :=
  ⟨first.toAlike.trans second.toAlike, second.dirty.trans first.dirty, second.length.trans first.length,
    fun index key same => first.deferred index key (second.deferred index key same)⟩

theorem Grown.loaded {i j : Instance} (grown : i.Grown j) {index : Nat} (loaded : (i.stateAt index).isLoaded = true) :
    (j.stateAt index).isLoaded = true := by
  cases now : j.stateAt index with
  | deferred key =>
    rw [grown.deferred index key now] at loaded
    cases loaded
  | one target => rfl
  | many targets => rfl

theorem inside_of_deferred {i : Instance} {index : Nat} (deferred : (i.stateAt index).isLoaded = false) :
    index < i.states.length := by
  by_contra outside
  rw [stateAt, List.getD_eq_getElem?_getD, List.getElem?_eq_none (Nat.not_lt.mp outside)] at deferred
  cases deferred

theorem stateAt_withState (i : Instance) (index other : Nat) (state : AssociationState) :
    (i.withState index state).stateAt other =
      if other = index ∧ index < i.states.length then state else i.stateAt other := by
  simp only [stateAt, withState, List.getD_eq_getElem?_getD, List.getElem?_set]
  by_cases same : index = other
  · subst same
    by_cases inside : index < i.states.length
    · simp [inside]
    · simp [inside]
  · simp [same, Ne.symm same]

theorem grown_withState {i : Instance} {index : Nat} {state : AssociationState} (loaded : state.isLoaded = true) :
    i.Grown (i.withState index state) := by
  refine ⟨i.alike_withState index state, rfl, List.length_set, ?_⟩
  intro other key now
  rw [stateAt_withState] at now
  split at now
  · rw [now] at loaded
    cases loaded
  · exact now

theorem grown_fill (i : Instance) (index : Nat) {state : AssociationState} (loaded : state.isLoaded = true) :
    i.Grown (i.fill index state) := by
  unfold fill
  split
  · exact .refl i
  · exact grown_withState loaded

theorem grown_addItem (i : Instance) (index : Nat) (item : Ref) : i.Grown (i.addItem index item) := by
  unfold addItem
  split
  · split
    · exact .refl i
    · exact grown_withState rfl
  · exact .refl i

end Instance

namespace Hydration

/-- What is staged is managed, stands once under the key of its instance, and under no key of the identity map. -/
structure Staged (h : Hydration) : Prop where
  keyed : ∀ key r, (key, r) ∈ h.staged → (h.heap.get r).key = .ok key
  managed : ∀ key r, (key, r) ∈ h.staged → (h.heap.get r).managed = true
  distinct : (h.staged.map (·.1)).Nodup
  free : ∀ key r, (key, r) ∈ h.staged → h.identity.get? key = none

/-- The second state is reached from the first by materializing rows: instances grow, new ones are staged behind the
others, and the identity map waits. -/
structure Extends (h k : Hydration) : Prop where
  identity : k.identity = h.identity
  size : h.heap.instances.size ≤ k.heap.instances.size
  grown : ∀ r, h.heap.Holds r → (h.heap.get r).Grown (k.heap.get r)
  staged : ∃ more, k.staged = h.staged ++ more ∧ ∀ entry ∈ more, h.heap.instances.size ≤ entry.2.index
  valid : h.Staged → k.Staged
  typed : h.heap.Typed → k.heap.Typed

theorem Extends.keeps {h k : Hydration} (extended : h.Extends k) : h.heap.Keeps k.heap :=
  ⟨extended.size, fun r held => (extended.grown r held).toAlike, extended.typed⟩

instance : IsPreorder Hydration Extends where
  refl h := ⟨rfl, Nat.le_refl _, fun r _ => .refl _, ⟨[], by simp⟩, id, id⟩
  trans h k l first second := by
    obtain ⟨more, atFirst, fresh⟩ := first.staged
    obtain ⟨others, atSecond, later⟩ := second.staged
    refine ⟨second.identity.trans first.identity, Nat.le_trans first.size second.size, ?_, ?_, ?_, ?_⟩
    · intro r held
      exact (first.grown r held).trans (second.grown r (first.keeps.holds held))
    · refine ⟨more ++ others, by rw [atSecond, atFirst, List.append_assoc], ?_⟩
      intro entry member
      rcases List.mem_append.mp member with early | late
      · exact fresh entry early
      · exact Nat.le_trans first.size (later entry late)
    · exact fun valid => second.valid (first.valid valid)
    · exact fun typed => second.typed (first.typed typed)

theorem Staged.of_keeps {h : Hydration} {heap : Heap} (valid : h.Staged) (kept : h.heap.Keeps heap) :
    ({ h with heap } : Hydration).Staged := by
  have alike : ∀ key r, (key, r) ∈ h.staged → (h.heap.get r).Alike (heap.get r) :=
    fun key r member => kept.alike r (h.heap.holds_of_key (valid.keyed key r member))
  refine ⟨?_, ?_, valid.distinct, valid.free⟩
  · intro key r member
    rw [(alike key r member).key]
    exact valid.keyed key r member
  · intro key r member
    rw [(alike key r member).managed]
    exact valid.managed key r member

/-- A change that lets the instance grow extends every state. -/
theorem respects_modifyInstance (r : Ref) {change : Instance → Instance} (grown : ∀ i, Instance.Grown i (change i)) :
    Respects Extends (modifyInstance r change) := by
  refine Respects.modify fun h => ?_
  have kept := h.heap.keeps_modify r fun i => (grown i).toAlike
  refine ⟨rfl, kept.size, ?_, ⟨[], by simp⟩, fun valid => valid.of_keeps kept, kept.typed⟩
  exact fun s _ => Heap.get_modify_related Instance.Grown.refl h.heap r (grown _) s

theorem respects_check {α : Type} {R : Hydration → Hydration → Prop} [Std.Refl R] (x : Except Error α) :
    Respects R (check x) := by
  cases x with
  | ok a => exact .pure a
  | error e => exact .throw e

/-- A value that is read is the value of its field, wherever there is a field for it. -/
theorem fieldValues_at {fields : List Field} {columns values : List Value}
    (run : fieldValues fields columns = .ok values) {n : Nat} {f : Field} {v : Value} (atField : fields[n]? = some f)
    (atColumn : columns[n]? = some v) : ∃ c, f.type.coerce v = .ok c ∧ values[n]? = some c := by
  induction fields generalizing columns values n with
  | nil => simp at atField
  | cons first rest ih =>
    cases columns with
    | nil => simp at atColumn
    | cons read others =>
      obtain ⟨c, coerced, run⟩ := Except.bind_eq_ok.mp run
      obtain ⟨more, later, run⟩ := Except.bind_eq_ok.mp run
      cases run
      cases n with
      | zero =>
        simp only [List.getElem?_cons_zero, Option.some.injEq] at atField atColumn ⊢
        subst atField atColumn
        exact ⟨c, coerced, rfl⟩
      | succ n =>
        simp only [List.getElem?_cons_succ] at atField atColumn ⊢
        exact ih later atField atColumn

/-- Values that are read are of the types of their fields. -/
theorem hasType_fieldValues {fields : List Field} {columns values : List Value}
    (run : fieldValues fields columns = .ok values) {n : Nat} {f : Field} (atField : fields[n]? = some f) :
    (values.getD n .null).HasType f.type := by
  induction fields generalizing columns values n with
  | nil => simp at atField
  | cons first rest ih =>
    cases columns with
    | nil =>
      cases run
      exact Value.hasType_null _
    | cons read others =>
      obtain ⟨c, coerced, run⟩ := Except.bind_eq_ok.mp run
      obtain ⟨more, later, run⟩ := Except.bind_eq_ok.mp run
      cases run
      cases n with
      | zero =>
        simp only [List.getElem?_cons_zero, Option.some.injEq] at atField
        subst atField
        exact DataType.hasType_of_coerce coerced
      | succ n =>
        simp only [List.getElem?_cons_succ] at atField
        exact ih later atField

theorem wellTyped_instanceOf {e : Entity} {id : Value} {columns : List Value} {i : Instance}
    (run : instanceOf e id columns = .ok i) : i.WellTyped := by
  obtain ⟨values, read, run⟩ := Except.bind_eq_ok.mp run
  obtain ⟨states, _, run⟩ := Except.bind_eq_ok.mp run
  cases run
  exact fun n f atField => hasType_fieldValues read atField

/-- The instance of a row has the key that it was looked up by. -/
theorem instanceOf_id {e : Entity} {id : Value} {columns : List Value} {i : Instance}
    (run : instanceOf e id columns = .ok i) (coerced : e.primaryKey.type.coerce (columns.getD e.key .null) = .ok id)
    (usable : id.isNull = false) : i.entity = e ∧ i.managed = true ∧ i.dirty = [] ∧ i.id = id := by
  obtain ⟨values, read, run⟩ := Except.bind_eq_ok.mp run
  obtain ⟨states, _, run⟩ := Except.bind_eq_ok.mp run
  cases run
  refine ⟨rfl, rfl, rfl, ?_⟩
  cases column : columns[e.key.val]? with
  | none =>
    -- A row that ends before the key gives no key.
    rw [List.getD_eq_getElem?_getD, column] at coerced
    have null : id = .null := by
      cases type : e.primaryKey.type <;> rw [type] at coerced <;> cases coerced <;> rfl
    rw [null] at usable
    cases usable
  | some v =>
    have atField : e.fields[e.key.val]? = some e.primaryKey := List.getElem?_eq_getElem e.key.isLt
    obtain ⟨c, same, atKey⟩ := fieldValues_at read atField column
    rw [List.getD_eq_getElem?_getD, column, Option.getD_some, same] at coerced
    cases coerced
    simp only [Instance.id, Instance.valueAt, List.getD_eq_getElem?_getD, atKey, Option.getD_some]

/-- The instance that a key stands for while rows are materialized. -/
def lookup (h : Hydration) (key : EntityKey) : Option Ref := (h.identity.get? key).or (h.staged.lookup key)

/-- All that can come of the columns of an entity: a refusal, no instance, a known one, or a new one that is staged. -/
inductive EntityStep (e : Entity) (h : Hydration) : EStateM.Result Error Hydration (Option Ref) → Prop
  | refused (error : Error) : EntityStep e h (.error error h)
  | absent : EntityStep e h (.ok none h)
  | known {key : EntityKey} {r : Ref} (name : key.entity = e.name) (found : h.lookup key = some r) :
      EntityStep e h (.ok (some r) h)
  | fresh {key : EntityKey} {i : Instance} (name : key.entity = e.name) (free : h.lookup key = none)
      (keyed : i.key = .ok key) (managed : i.managed = true) (clean : i.dirty = []) (typed : i.WellTyped) :
      EntityStep e h (.ok (some (h.heap.allocate i).1)
        { h with heap := (h.heap.allocate i).2, staged := h.staged ++ [(key, (h.heap.allocate i).1)] })

theorem entity_step (e : Entity) (columns : List Value) (h : Hydration) : EntityStep e h (entity e columns h) := by
  unfold entity
  cases coerced : e.primaryKey.type.coerce (columns.getD e.key .null) with
  | error error => exact .refused error
  | ok id =>
    cases null : id.isNull with
    | true =>
      simp only [check, pure_bind, null, if_true]
      exact .absent
    | false =>
      simp only [check, pure_bind, null, Bool.false_eq_true, if_false]
      cases usable : EntityKey.of e.name id with
      | error error => exact .refused error
      | ok key =>
        obtain ⟨keyValue, value, same⟩ := Except.bind_eq_ok.mp usable
        cases same
        simp only [pure_bind]
        rw [bind_run, get_run]
        dsimp only
        have name : (⟨e.name, keyValue⟩ : EntityKey).entity = e.name := rfl
        cases found : h.lookup ⟨e.name, keyValue⟩ with
        | some known =>
          unfold Hydration.lookup at found
          rw [found]
          exact .known name found
        | none =>
          have free := found
          unfold Hydration.lookup at free
          rw [free]
          cases read : instanceOf e id columns with
          | error error => exact .refused error
          | ok i =>
            obtain ⟨entity, managed, clean, atKey⟩ := instanceOf_id read coerced null
            refine .fresh name found ?_ managed clean (wellTyped_instanceOf read)
            rw [Instance.key, entity, atKey, usable]

theorem lookup_append {h : Hydration} {key : EntityKey} {r : Ref} (found : h.lookup key = some r)
    (more : List (EntityKey × Ref)) : (h.identity.get? key).or ((h.staged ++ more).lookup key) = some r := by
  unfold lookup at found
  rw [List.lookup_append, ← Option.or_assoc, found, Option.some_or]

/-- Materializing an instance stages it under a key that was free, or changes nothing. -/
theorem respects_entity (e : Entity) (columns : List Value) : Respects Extends (entity e columns) := by
  intro h
  have step := entity_step e columns h
  unfold leaves
  cases run : entity e columns h with
  | error error k =>
    rw [run] at step
    cases step
    exact refl_of Extends h
  | ok found k =>
    rw [run] at step
    cases step with
    | absent => exact refl_of Extends h
    | known => exact refl_of Extends h
    | @fresh key i name free keyed managed clean typed =>
      obtain ⟨unregistered, unstaged⟩ := Option.or_eq_none_iff.mp free
      refine ⟨rfl, by simp, ?_, ⟨[(key, (h.heap.allocate i).1)], rfl, ?_⟩, ?_,
        (h.heap.keeps_allocate typed).typed⟩
      · intro r held
        rw [Heap.get_allocate held]
        exact .refl _
      · intro entry member
        cases List.mem_singleton.mp member
        exact Nat.le_refl _
      · intro valid
        have before := valid.of_keeps (h.heap.keeps_allocate typed)
        refine ⟨?_, ?_, ?_, ?_⟩
        · intro other r member
          rcases List.mem_append.mp member with old | new
          · exact before.keyed other r old
          · cases List.mem_singleton.mp new
            rw [Heap.get_allocated]
            exact keyed
        · intro other r member
          rcases List.mem_append.mp member with old | new
          · exact before.managed other r old
          · cases List.mem_singleton.mp new
            rw [Heap.get_allocated]
            exact managed
        · rw [List.map_append, List.nodup_append]
          refine ⟨valid.distinct, List.nodup_singleton _, ?_⟩
          intro other old another new same
          obtain ⟨⟨_, s⟩, member, rfl⟩ := List.mem_map.mp old
          cases List.mem_singleton.mp new
          cases same
          simpa using List.lookup_eq_none_iff.mp unstaged _ member
        · intro other r member
          rcases List.mem_append.mp member with old | new
          · exact valid.free other r old
          · cases List.mem_singleton.mp new
            exact unregistered

/-- A relation between states that holds where `attach` changes something: it loads an association, adds an instance to a
collection, or notes that a collection is started. -/
structure Attaching (R : Hydration → Hydration → Prop) : Prop where
  fill : ∀ r index {state : AssociationState}, state.isLoaded = true →
    Respects R (modifyInstance r (·.fill index state))
  add : ∀ r index item, Respects R (modifyInstance r (·.addItem index item))
  start : ∀ (h : Hydration) (started : List (Ref × Nat)), R h { h with started }

section Parts

variable {R : Hydration → Hydration → Prop} [IsPreorder Hydration R]

theorem respects_startCollection_of (attaching : Attaching R) (owner : Ref) (index : Nat) :
    Respects R (startCollection owner index) := by
  refine .get_bind fun h => ?_
  split
  · exact refl_of R h
  · split
    · exact refl_of R h
    · have filled : Respects R (modifyInstance owner (·.fill index (.many []))) := attaching.fill owner index rfl
      exact trans_of R (attaching.start h ((owner, index) :: h.started)) (filled _)

theorem respects_pointBack_of (attaching : Attaching R) (owner : Ref) (a : Association) (target : Option Ref) :
    Respects R (pointBack owner a target) := by
  unfold pointBack
  split
  · exact .bind .get fun h => .bind (respects_check _) fun back => attaching.fill _ back rfl
  · exact .pure ()

theorem respects_attach_of (attaching : Attaching R) (owner : Ref) (a : Association) (target : Option Ref) :
    Respects R (attach owner a target) := by
  refine .bind .get fun h => .bind (respects_check _) fun index => ?_
  split
  · exact .bind (attaching.fill owner index rfl) fun _ => respects_pointBack_of attaching owner a target
  · refine .bind (respects_startCollection_of attaching owner index) fun started => ?_
    split
    · refine .bind ?_ fun _ => respects_pointBack_of attaching owner a target
      cases target with
      | none => exact .pure ()
      | some item => exact attaching.add owner index item
    · exact .pure ()

/-- Columns with a usable key become an instance, which is staged unless it is known. Otherwise nothing happens. -/
theorem respects_entity_of (e : Entity) (columns : List Value)
    (stages : ∀ id key i, e.primaryKey.type.coerce (columns.getD e.key .null) = .ok id → id.isNull = false →
      instanceOf e id columns = .ok i → Respects R (stage key i)) : Respects R (entity e columns) := by
  unfold entity
  cases coerced : e.primaryKey.type.coerce (columns.getD e.key .null) with
  | error error => exact .throw error
  | ok id =>
    simp only [check, pure_bind]
    split
    case isTrue => exact .pure _
    case isFalse keyed =>
      refine .bind (respects_check _) fun key => .bind .get fun h => ?_
      split
      · exact .pure _
      · cases read : instanceOf e id columns with
        | error error => exact .throw error
        | ok i =>
          simp only [pure_bind]
          exact .bind (stages id key i coerced (by simpa using keyed) read) fun _ => .pure _

variable (reads : ∀ e columns, Respects R (entity e columns))

include reads

theorem respects_cells_of (row : List Value) (items : List LayoutItem) (found : Found) :
    Respects R (cells row items found) := by
  induction items generalizing found with
  | nil => exact .pure _
  | cons item rest ih =>
    unfold cells
    split
    · exact .bind (respects_check _) fun _ => .bind (ih found) fun _ => .pure _
    · exact .bind (reads _ _) fun _ => .bind (ih _) fun _ => .pure _

variable (attaching : Attaching R)

include attaching

theorem respects_fetches_of (row : List Value) (bindings : List FetchBinding) (found : Found) :
    Respects R (fetches row bindings found) := by
  induction bindings generalizing found with
  | nil => exact .pure ()
  | cons b rest ih =>
    refine .bind (reads _ _) fun target => ?_
    split
    · exact .bind (respects_attach_of attaching _ _ _) fun _ => ih _
    · exact ih _

theorem respects_record_of (layout : Layout) (row : List Value) : Respects R (record layout row) := by
  unfold record
  split
  · exact .throw _
  · exact .bind (respects_cells_of reads row _ _) fun _ => .bind (respects_fetches_of reads attaching row _ _) fun _ =>
      .pure _

/-- Rows are read one after the other, each an instance and an attachment at a time. -/
theorem respects_recordsOf_of (layout : Layout) (rows : List (List Value)) : Respects R (recordsOf layout rows) := by
  induction rows with
  | nil => exact .pure _
  | cons row rest ih => exact .bind (respects_record_of reads attaching layout row) fun _ => .bind ih fun _ => .pure _

end Parts

theorem attaching_extends : Attaching Extends where
  fill r index _ loaded := respects_modifyInstance r fun i => i.grown_fill index loaded
  add r index item := respects_modifyInstance r fun i => i.grown_addItem index item
  start h _ :=
    ⟨rfl, Nat.le_refl _, fun _ _ => .refl _, ⟨[], by simp⟩,
      fun valid => ⟨valid.keyed, valid.managed, valid.distinct, valid.free⟩, id⟩

theorem respects_pointBack (owner : Ref) (a : Association) (target : Option Ref) :
    Respects Extends (pointBack owner a target) := respects_pointBack_of attaching_extends owner a target

theorem respects_attach (owner : Ref) (a : Association) (target : Option Ref) :
    Respects Extends (attach owner a target) := respects_attach_of attaching_extends owner a target

theorem respects_recordsOf (layout : Layout) (rows : List (List Value)) :
    Respects Extends (recordsOf layout rows) := respects_recordsOf_of respects_entity attaching_extends layout rows

/-- The instance is the one that its own key stands for. -/
def Known (h : Hydration) (r : Ref) : Prop := ∃ key, h.lookup key = some r ∧ (h.heap.get r).key = .ok key

theorem Known.extends {h k : Hydration} (extended : h.Extends k) {r : Ref} (known : h.Known r) : k.Known r := by
  obtain ⟨key, found, keyed⟩ := known
  refine ⟨key, ?_, ?_⟩
  · obtain ⟨more, staged, _⟩ := extended.staged
    unfold lookup
    rw [extended.identity, staged]
    exact lookup_append found more
  · rw [(extended.keeps.alike r (h.heap.holds_of_key keyed)).key]
    exact keyed

/-- A state in which every key of the identity map and of the staged instances is the key of its instance. -/
def Sound (h : Hydration) : Prop := h.Staged ∧ h.identity.Keyed h.heap

theorem Sound.extends {h k : Hydration} (extended : h.Extends k) (sound : h.Sound) : k.Sound := by
  refine ⟨extended.valid sound.1, ?_⟩
  rw [extended.identity]
  exact sound.2.of_keeps extended.keeps

theorem Sound.known {h : Hydration} (sound : h.Sound) {key : EntityKey} {r : Ref} (found : h.lookup key = some r) :
    h.Known r := by
  refine ⟨key, found, ?_⟩
  rcases Option.or_eq_some_iff.mp found with registered | ⟨_, staged⟩
  · exact sound.2.keyed key r (IdentityMap.mem_of_get? registered)
  · obtain ⟨before, after, split, _⟩ := List.lookup_eq_some_iff.mp staged
    exact sound.1.keyed key r (by rw [split]; exact List.mem_append_right before List.mem_cons_self)

theorem yields_entity (e : Entity) (columns : List Value) :
    Yields Sound (entity e columns) fun found h => h.Sound ∧ ∀ r ∈ found, h.Known r := by
  intro h found k sound run
  have extended := respects_entity e columns h
  rw [leaves_of_ok run] at extended
  have step := entity_step e columns h
  rw [run] at step
  refine ⟨sound.extends extended, ?_⟩
  cases step with
  | absent => exact fun r none => nomatch none
  | known name present =>
    intro r same
    cases same
    exact sound.known present
  | @fresh key i name free keyed managed clean typed =>
    intro r same
    cases same
    obtain ⟨unregistered, unstaged⟩ := Option.or_eq_none_iff.mp free
    refine ⟨key, ?_, by rw [Heap.get_allocated]; exact keyed⟩
    simp [lookup, unregistered, List.lookup_append, unstaged]

end Hydration

/-- The instances among the results of a row. -/
def Cell.refs : Cell → List Ref
  | value _ => []
  | entity found => found.toList

def Record.refs : Record → List Ref
  | cell c => c.refs
  | tuple t => t.cells.flatMap Cell.refs

/-- A single result is the last of the row's cells. -/
theorem Cell.refs_getLast {cells : List Cell} {r : Ref}
    (member : r ∈ (Record.cell (cells.getLast?.getD (.value .null))).refs) : r ∈ cells.flatMap Cell.refs := by
  cases last : cells.getLast? with
  | none =>
    rw [last] at member
    exact absurd member List.not_mem_nil
  | some c =>
    rw [last] at member
    exact List.mem_flatMap.mpr ⟨c, List.mem_of_getLast? last, member⟩

namespace Hydration

theorem yields_cells (row : List Value) (items : List LayoutItem) (found : Found) :
    Yields Sound (cells row items found) fun result h => h.Sound ∧ ∀ r ∈ result.1.flatMap Cell.refs, h.Known r := by
  induction items generalizing found with
  | nil => exact .pure fun h sound => ⟨sound, fun r member => absurd member List.not_mem_nil⟩
  | cons item rest ih =>
    unfold cells
    split
    · refine .bind ((respects_check _).yields fun h k => Sound.extends) fun v => .bind (ih found) fun result => ?_
      exact .pure fun h holds => by simpa [Cell.refs] using holds
    · refine .bind (yields_entity _ _) fun r => .bind (Q := fun result h =>
        (h.Sound ∧ ∀ s ∈ result.1.flatMap Cell.refs, h.Known s) ∧ ∀ s ∈ r, h.Known s) ?_ fun result => ?_
      · refine (ih _).and ((respects_cells_of respects_entity _ _ _).yields ?_)
        exact fun h k extended known s member => (known s member).extends extended
      · refine .pure fun h holds => ⟨holds.1.1, fun s member => ?_⟩
        rcases List.mem_append.mp (by simpa only [List.flatMap_cons] using member) with own | other
        · exact holds.2 s (Option.mem_toList.mp own)
        · exact holds.1.2 s other

theorem yields_record (layout : Layout) (row : List Value) :
    Yields Sound (record layout row) fun result h => h.Sound ∧ ∀ r ∈ result.refs, h.Known r := by
  unfold record
  split
  · exact .throw _
  · refine .bind (yields_cells row _ _) fun result => .bind (Q := fun _ h =>
      h.Sound ∧ ∀ r ∈ result.1.flatMap Cell.refs, h.Known r) ?_ fun _ => ?_
    · refine (respects_fetches_of respects_entity attaching_extends row _ _).yields fun h k extended holds =>
        ⟨holds.1.extends extended, ?_⟩
      exact fun r member => (holds.2 r member).extends extended
    · refine .pure fun h holds => ⟨holds.1, fun r member => holds.2 r ?_⟩
      split at member
      · exact member
      · exact Cell.refs_getLast member
      · exact Cell.refs_getLast member

theorem yields_recordsOf (layout : Layout) (rows : List (List Value)) :
    Yields Sound (recordsOf layout rows) fun result h => h.Sound ∧ ∀ r ∈ result.flatMap Record.refs, h.Known r := by
  induction rows with
  | nil => exact .pure fun h sound => ⟨sound, fun r member => absurd member List.not_mem_nil⟩
  | cons row rest ih =>
    refine .bind (yields_record layout row) fun first => .bind (Q := fun result h =>
      (h.Sound ∧ ∀ s ∈ result.flatMap Record.refs, h.Known s) ∧ ∀ s ∈ first.refs, h.Known s) ?_ fun result => ?_
    · refine (ih.and ((respects_recordsOf layout rest).yields (P := fun h => ∀ s ∈ first.refs, h.Known s) ?_)).mono
        (fun h holds => ⟨holds.1, holds.2⟩) fun _ _ holds => holds
      exact fun h k extended known s member => (known s member).extends extended
    · refine .pure fun h holds => ⟨holds.1.1, fun s member => ?_⟩
      rcases List.mem_append.mp (by simpa only [List.flatMap_cons] using member) with own | other
      · exact holds.2 s own
      · exact holds.1.2 s other

/-- Instances under keys of their own that no entry has are registered one after the other. -/
theorem registerAll_run (entries : List (EntityKey × Ref)) (h : Hydration)
    (keyed : ∀ key r, (key, r) ∈ entries → (h.heap.get r).key = .ok key) (distinct : (entries.map (·.1)).Nodup)
    (free : ∀ key r, (key, r) ∈ entries → h.identity.get? key = none) :
    registerAll entries h = .ok () { h with identity := ⟨h.identity.entries ++ entries⟩ } := by
  induction entries generalizing h with
  | nil =>
    rw [List.append_nil]
    rfl
  | cons entry rest ih =>
    obtain ⟨key, r⟩ := entry
    obtain ⟨apart, others⟩ := List.nodup_cons.mp distinct
    have registered := IdentityMap.register_free (keyed key r List.mem_cons_self) (free key r List.mem_cons_self)
    have next := ih { h with identity := ⟨h.identity.entries ++ [(key, r)]⟩ }
      (fun other s member => keyed other s (List.mem_cons_of_mem _ member)) others ?_
    · rw [List.append_assoc, List.singleton_append] at next
      rw [← next, registerAll]
      simp only [bind_run, get_run, registered]
      rfl
    · intro other s member
      have different : other ≠ key := fun same => apart (same ▸ List.mem_map_of_mem (f := (·.1)) member)
      have absent := free other s (List.mem_cons_of_mem _ member)
      unfold IdentityMap.get? at absent ⊢
      simp [List.lookup_append, absent, different]

/-- When all rows are materialized the staged instances are registered, and nothing can stop that. -/
theorem records_run {layout : Layout} {rows : List (List Value)} {h k : Hydration} {found : List Record}
    (valid : h.Staged) (run : recordsOf layout rows h = .ok found k) :
    records layout rows h = .ok found { k with identity := ⟨k.identity.entries ++ k.staged⟩ } := by
  have extended := respects_recordsOf layout rows h
  rw [leaves_of_ok run] at extended
  have staged := extended.valid valid
  have registered := registerAll_run k.staged k staged.keyed staged.distinct staged.free
  unfold records
  simp only [bind_run, run, get_run, registered]
  rfl

theorem records_error {layout : Layout} {rows : List (List Value)} {h k : Hydration} {e : Error} (valid : h.Staged)
    (run : records layout rows h = .error e k) : recordsOf layout rows h = .error e k := by
  cases materialized : recordsOf layout rows h with
  | ok found middle =>
    rw [records_run valid materialized] at run
    cases run
  | error other middle =>
    unfold records at run
    rw [bind_run, materialized] at run
    exact run

theorem staged_nil (heap : Heap) (identity : IdentityMap) (started : List (Ref × Nat)) :
    (⟨heap, identity, [], started⟩ : Hydration).Staged :=
  ⟨fun _ _ member => absurd member List.not_mem_nil, fun _ _ member => absurd member List.not_mem_nil,
    List.nodup_nil, fun _ _ member => absurd member List.not_mem_nil⟩

end Hydration

end EntityMapper
