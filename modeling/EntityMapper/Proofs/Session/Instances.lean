import Mathlib.Order.Basic
import Mathlib.Tactic.Common
import EntityMapper.Session.Identity
import EntityMapper.Proofs.Action

namespace EntityMapper

/-- The value is null or of exactly the type. -/
def Value.HasType (v : Value) (type : DataType) : Prop := ∀ own ∈ v.dataType?, own = type

theorem Value.hasType_null (type : DataType) : Value.null.HasType type := fun _ none => nomatch none

/-- A coerced value is null or of the type it was brought to. -/
theorem DataType.hasType_of_coerce {type : DataType} {v c : Value} (run : type.coerce v = .ok c) : c.HasType type := by
  have ofWhole {d : Double} {refused : Error}
      (run : d.int64?.elim (.error refused) (fun i => .ok (.int i)) = Except.ok c) : c.HasType .integer := by
    cases whole : d.int64? with
    | none =>
      rw [whole] at run
      cases run
    | some i =>
      rw [whole] at run
      cases run
      exact fun own same => (Option.some.inj same).symm
  cases type <;> cases v
  case integer.float => exact ofWhole run
  all_goals cases run <;> simp [Value.HasType, Value.dataType?]

/-- A value of a type is brought to that type as it is. -/
theorem DataType.coerce_of_hasType {type : DataType} {v : Value} (typed : v.HasType type) : type.coerce v = .ok v := by
  cases v with
  | null => cases type <;> rfl
  | bool b => cases typed _ rfl; rfl
  | int i => cases typed _ rfl; rfl
  | float d => cases typed _ rfl; rfl
  | text s => cases typed _ rfl; rfl

/-- A value of a type compares with the type. -/
theorem checkTypes_of_hasType {type : DataType} {v : Value} (typed : v.HasType type) (operation : String) :
    checkTypes operation (some type) v.dataType? = .ok () := by
  cases own : v.dataType? with
  | none => rfl
  | some other => simp [checkTypes, DataType.comparable, typed other own]

theorem Entity.fieldIndex_eq_ok {e : Entity} {name : String} {index : Nat} :
    e.fieldIndex name = .ok index ↔ e.fieldIndex? name = some index := by
  unfold fieldIndex
  cases e.fieldIndex? name with
  | none => simp
  | some n => simp

theorem Entity.associationIndex_eq_ok {e : Entity} {name : String} {index : Nat} :
    e.associationIndex name = .ok index ↔ e.associationIndex? name = some index := by
  unfold associationIndex
  cases e.associationIndex? name with
  | none => simp
  | some n => simp

theorem Entity.associationIndex_of_mem {e : Entity} {a : Association} (listed : a ∈ e.associations) :
    ∃ n, e.associationIndex a.name = .ok n := by
  cases found : e.associationIndex? a.name with
  | none => exact absurd (List.findIdx?_eq_none_iff.mp found a listed) (by simp)
  | some n => exact ⟨n, associationIndex_eq_ok.mpr found⟩

/-- Every value of the instance is null or of its field's type. -/
def Instance.WellTyped (i : Instance) : Prop :=
  ∀ n f, i.entity.fields[n]? = some f → (i.valueAt n).HasType f.type

/-- The second instance has the entity, the values and the standing of the first. Associations and changed columns may
differ. -/
structure Instance.Alike (i j : Instance) : Prop where
  entity : j.entity = i.entity
  values : j.values = i.values
  managed : j.managed = i.managed

namespace Instance

theorem Alike.refl (i : Instance) : i.Alike i := ⟨rfl, rfl, rfl⟩

theorem Alike.trans {i j k : Instance} (first : i.Alike j) (second : j.Alike k) : i.Alike k :=
  ⟨second.entity.trans first.entity, second.values.trans first.values, second.managed.trans first.managed⟩

theorem Alike.id {i j : Instance} (alike : i.Alike j) : j.id = i.id := by
  unfold Instance.id valueAt
  rw [alike.values, alike.entity]

theorem Alike.key {i j : Instance} (alike : i.Alike j) : j.key = i.key := by
  simp only [Instance.key, alike.id, alike.entity]

theorem alike_withState (i : Instance) (index : Nat) (state : AssociationState) : i.Alike (i.withState index state) :=
  ⟨rfl, rfl, rfl⟩

theorem alike_written (i : Instance) : i.Alike { i with dirty := [] } := ⟨rfl, rfl, rfl⟩

theorem alike_touch (i : Instance) (column : String) : i.Alike (i.touch column) := by
  unfold touch
  split
  · exact ⟨rfl, rfl, rfl⟩
  · exact .refl i

theorem Alike.wellTyped {i j : Instance} (alike : i.Alike j) (typed : i.WellTyped) : j.WellTyped := by
  intro n f atField
  rw [alike.entity] at atField
  unfold valueAt
  rw [alike.values]
  exact typed n f atField

theorem wellTyped_default : (default : Instance).WellTyped := fun _ _ _ => Value.hasType_null _

theorem wellTyped_new (e : Entity) : (new e).WellTyped := by
  intro n f _
  have null : (new e).valueAt n = .null := by
    simp only [valueAt, new, List.getD_eq_getElem?_getD, List.getElem?_map]
    cases e.fields[n]? with
    | none => rfl
    | some _ => rfl
  rw [null]
  exact Value.hasType_null _

/-- A coerced value may stand in its field. -/
theorem WellTyped.set {i : Instance} (typed : i.WellTyped) {index : Nat} {f : Field} {v c : Value}
    (atField : i.entity.fields[index]? = some f) (coerced : f.type.coerce v = .ok c) :
    ({ i with values := i.values.set index c } : Instance).WellTyped := by
  intro n g atOther
  have before := typed n g atOther
  simp only [valueAt, List.getD_eq_getElem?_getD, List.getElem?_set] at before ⊢
  by_cases same : index = n
  · subst same
    cases atField.symm.trans atOther
    simp only [if_true]
    split
    · exact DataType.hasType_of_coerce coerced
    · exact Value.hasType_null _
  · simpa only [if_neg same] using before

theorem field_of_fieldIndex {e : Entity} {name : String} {index : Nat} (run : e.fieldIndex name = .ok index) :
    e.fields[index]? = some (e.fields.getD index default) := by
  have inside := (List.findIdx?_eq_some_iff_findIdx_eq.mp (Entity.fieldIndex_eq_ok.mp run)).1
  rw [List.getD_eq_getElem?_getD, List.getElem?_eq_getElem inside, Option.getD_some]

theorem association_of_associationIndex {e : Entity} {name : String} {index : Nat}
    (run : e.associationIndex name = .ok index) :
    e.associations[index]? = some (e.associations.getD index default) := by
  have inside := (List.findIdx?_eq_some_iff_findIdx_eq.mp (Entity.associationIndex_eq_ok.mp run)).1
  rw [List.getD_eq_getElem?_getD, List.getElem?_eq_getElem inside, Option.getD_some]

theorem wellTyped_set {i j : Instance} {field : String} {value : Value} (run : i.set field value = .ok j)
    (typed : i.WellTyped) : j.WellTyped := by
  obtain ⟨index, found, run⟩ := Except.bind_eq_ok.mp run
  obtain ⟨_, _, run⟩ := Except.bind_eq_ok.mp run
  obtain ⟨coerced, read, run⟩ := Except.bind_eq_ok.mp run
  split at run
  · cases run
  · split at run
    · cases run
      exact typed
    · cases run
      exact (alike_touch _ _).wellTyped (typed.set (field_of_fieldIndex found) read)

theorem wellTyped_assignKey {i j : Instance} {key : Value} (run : i.assignKey key = .ok j) (typed : i.WellTyped) :
    j.WellTyped := by
  obtain ⟨c, coerced, run⟩ := Except.bind_eq_ok.mp run
  cases run
  exact typed.set (List.getElem?_eq_getElem i.entity.key.isLt) coerced

theorem alike_fill (i : Instance) (index : Nat) (loaded : AssociationState) : i.Alike (i.fill index loaded) := by
  unfold fill
  split
  · exact .refl i
  · exact i.alike_withState index loaded

theorem alike_addItem (i : Instance) (index : Nat) (item : Ref) : i.Alike (i.addItem index item) := by
  unfold addItem
  split
  · split
    · exact .refl i
    · exact i.alike_withState index _
  · exact .refl i

theorem alike_link (i : Instance) (owning : Association) (owner : Ref) : i.Alike (i.link owning owner) := by
  unfold link
  split
  · exact .refl i
  · split
    · exact i.alike_addItem _ owner
    · exact i.alike_withState _ _
    · exact .refl i

theorem alike_unlink (i : Instance) (owning : Association) (owner : Ref) : i.Alike (i.unlink owning owner) := by
  unfold unlink
  split
  · exact .refl i
  · split
    · exact i.alike_withState _ _
    · split
      · exact i.alike_withState _ _
      · exact .refl i
    · exact .refl i

/-- An instance with a usable key is a real one: a blank instance has none. -/
theorem key_default : (default : Instance).key = .error (.invalidArgument (.unusableKey .null)) := rfl

end Instance

namespace Heap

/-- The address has been given to an instance. -/
def Holds (h : Heap) (r : Ref) : Prop := r.index < h.instances.size

theorem get_of_not_holds {h : Heap} {r : Ref} (free : ¬h.Holds r) : h.get r = default := by
  simp only [get, Holds, Nat.not_lt] at free ⊢
  rw [Array.getD_eq_getD_getElem?, Array.getElem?_eq_none free]
  rfl

theorem holds_of_key {h : Heap} {r : Ref} {key : EntityKey} (keyed : (h.get r).key = .ok key) : h.Holds r := by
  by_contra free
  rw [get_of_not_holds free, Instance.key_default] at keyed
  cases keyed

theorem holds_of_deferred {h : Heap} {r : Ref} {index : Nat} (deferred : ((h.get r).stateAt index).isLoaded = false) :
    h.Holds r := by
  by_contra free
  rw [get_of_not_holds free] at deferred
  cases deferred

theorem holds_of_managed {h : Heap} {r : Ref} (managed : (h.get r).managed = true) : h.Holds r := by
  by_contra free
  rw [get_of_not_holds free] at managed
  cases managed

@[simp] theorem size_modify (h : Heap) (r : Ref) (change : Instance → Instance) :
    (h.modify r change).instances.size = h.instances.size := by
  simp only [modify, Array.size_modify]

@[simp] theorem holds_modify {h : Heap} {r s : Ref} {change : Instance → Instance} :
    (h.modify r change).Holds s ↔ h.Holds s := by
  simp only [Holds, size_modify]

theorem modify_modify (h : Heap) (r : Ref) (first second : Instance → Instance) :
    (h.modify r first).modify r second = h.modify r fun i => second (first i) := by
  refine congrArg Heap.mk (Array.ext (by simp) fun n inside _ => ?_)
  simp only [modify, Array.getElem_modify]
  split <;> rfl

theorem get_modify_of_ne {h : Heap} {r s : Ref} (other : s ≠ r) (change : Instance → Instance) :
    (h.modify r change).get s = h.get s := by
  have apart : r.index ≠ s.index := fun same => other (by cases r; cases s; exact congrArg Ref.mk same.symm)
  simp only [get, modify, Array.getD_eq_getD_getElem?, Array.getElem?_modify, if_neg apart]

theorem get_modify_self {h : Heap} {r : Ref} (held : h.Holds r) (change : Instance → Instance) :
    (h.modify r change).get r = change (h.get r) := by
  have inside : h.instances[r.index]? = some h.instances[r.index] := Array.getElem?_eq_getElem held
  simp only [get, modify, Array.getD_eq_getD_getElem?, Array.getElem?_modify, if_true, inside, Option.map_some,
    Option.getD_some]

/-- A change of one instance relates every instance to what becomes of it, if it relates that one. -/
theorem get_modify_related {R : Instance → Instance → Prop} (same : ∀ i, R i i) (h : Heap) (r : Ref)
    {change : Instance → Instance} (related : R (h.get r) (change (h.get r))) (s : Ref) :
    R (h.get s) ((h.modify r change).get s) := by
  by_cases equal : s = r
  · subst equal
    by_cases held : h.Holds s
    · rw [get_modify_self held]
      exact related
    · rw [get_of_not_holds held, get_of_not_holds (by rwa [holds_modify])]
      exact same default
  · rw [get_modify_of_ne equal]
    exact same _

theorem get_allocate {h : Heap} {s : Ref} (held : h.Holds s) (i : Instance) : (h.allocate i).2.get s = h.get s := by
  have inside : s.index < h.instances.size := held
  simp only [get, allocate, Array.getD_eq_getD_getElem?, Array.getElem?_push, Nat.ne_of_lt inside, if_false]

theorem get_allocated (h : Heap) (i : Instance) : (h.allocate i).2.get (h.allocate i).1 = i := by
  simp only [get, allocate, Array.getD_eq_getD_getElem?, Array.getElem?_push, if_true, Option.getD_some]

@[simp] theorem size_allocate (h : Heap) (i : Instance) :
    (h.allocate i).2.instances.size = h.instances.size + 1 := by
  simp only [allocate, Array.size_push]

/-- Every instance has a property. -/
def Every (P : Instance → Prop) (h : Heap) : Prop := ∀ r, P (h.get r)

theorem every_modify {P : Instance → Prop} {h : Heap} (every : h.Every P) (r : Ref) {change : Instance → Instance}
    (kept : P (h.get r) → P (change (h.get r))) : (h.modify r change).Every P :=
  fun s => get_modify_related (R := fun i j => P i → P j) (fun _ => id) h r kept s (every s)

theorem every_allocate {P : Instance → Prop} {h : Heap} (every : h.Every P) (blank : P default) {i : Instance}
    (holds : P i) : (h.allocate i).2.Every P := by
  intro r
  by_cases held : h.Holds r
  · rw [get_allocate held]
    exact every r
  · by_cases own : r = (h.allocate i).1
    · rw [own, get_allocated]
      exact holds
    · have free : ¬(h.allocate i).2.Holds r := by
        have different : r.index ≠ h.instances.size := fun same => own (by cases r; exact congrArg Ref.mk same)
        simp only [Holds, size_allocate] at held ⊢
        omega
      rw [get_of_not_holds free]
      exact blank

/-- Every instance is well typed. -/
def Typed (h : Heap) : Prop := ∀ r, (h.get r).WellTyped

/-- Every instance of the first heap is still there with its entity, its values and its standing, and others are as
well typed as those are. -/
structure Keeps (h k : Heap) : Prop where
  size : h.instances.size ≤ k.instances.size
  alike : ∀ r, h.Holds r → (h.get r).Alike (k.get r)
  typed : h.Typed → k.Typed

theorem Keeps.refl (h : Heap) : h.Keeps h := ⟨Nat.le_refl _, fun r _ => .refl (h.get r), id⟩

theorem Keeps.holds {h k : Heap} (kept : h.Keeps k) {r : Ref} (held : h.Holds r) : k.Holds r :=
  Nat.lt_of_lt_of_le held kept.size

theorem Keeps.trans {h k l : Heap} (first : h.Keeps k) (second : k.Keeps l) : h.Keeps l :=
  ⟨Nat.le_trans first.size second.size,
    fun r held => (first.alike r held).trans (second.alike r (first.holds held)),
    fun typed => second.typed (first.typed typed)⟩

theorem keeps_modify (h : Heap) (r : Ref) {change : Instance → Instance}
    (alike : ∀ i, Instance.Alike i (change i)) : h.Keeps (h.modify r change) := by
  have related := get_modify_related Instance.Alike.refl h r (alike _)
  exact ⟨Nat.le_of_eq (size_modify h r change).symm, fun s _ => related s,
    fun typed s => (related s).wellTyped (typed s)⟩

theorem typed_modify {h : Heap} (typed : h.Typed) (r : Ref) {change : Instance → Instance}
    (well : (h.get r).WellTyped → (change (h.get r)).WellTyped) : (h.modify r change).Typed :=
  every_modify typed r well

theorem typed_allocate {h : Heap} (typed : h.Typed) {i : Instance} (well : i.WellTyped) : (h.allocate i).2.Typed :=
  every_allocate typed Instance.wellTyped_default well

theorem keeps_allocate (h : Heap) {i : Instance} (well : i.WellTyped) : h.Keeps (h.allocate i).2 :=
  ⟨by simp, fun r held => by rw [get_allocate held]; exact .refl _, fun typed => typed_allocate typed well⟩

end Heap

end EntityMapper
