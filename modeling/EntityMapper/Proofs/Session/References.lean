import EntityMapper.Proofs.Session.Changes
import EntityMapper.Proofs.Session.Listings

namespace EntityMapper

theorem Entity.association_at {e : Entity} {index : Nat} {a : Association} (declared : e.associations[index]? = some a) :
    e.associations.getD index default = a := by
  rw [List.getD_eq_getElem?_getD, declared, Option.getD_some]

/-- An inverse association is mapped by an owning one if it names it and leads to its owner. -/
def Association.IsMappedBy (a owning : Association) : Prop := a.mappedBy = some owning.name ∧ a.target = owning.owner

/-- The first association of an entity that is mapped by an owning one stands at an index. -/
def Entity.SeesAt (e : Entity) (owning : Association) (index : Nat) : Prop :=
  (∃ a, e.associations[index]? = some a ∧ a.IsMappedBy owning) ∧
    ∀ before < index, ∀ a, e.associations[before]? = some a → ¬a.IsMappedBy owning

namespace AssociationState

/-- The inverse side of an association from the view of a new target. If it is loaded it has the owner, once unless it
had it several times, and nothing else changes. -/
def Gains (owner : Ref) : AssociationState → AssociationState → Prop
  | deferred key, after => after = deferred key
  | one _, after => after = one (some owner)
  | many items, after => ∃ others, after = many others ∧ owner ∈ others ∧
      (items.count owner ≤ 1 → others.count owner = 1) ∧ others.filter (· ≠ owner) = items.filter (· ≠ owner)

/-- The inverse side of an association from the view of an old target. If it is loaded it no longer has the owner, and
nothing else changes. -/
def Loses (owner : Ref) : AssociationState → AssociationState → Prop
  | deferred key, after => after = deferred key
  | one current, after => after = one (if current = some owner then none else current)
  | many items, after => after = many (items.filter (· ≠ owner))

variable {owner : Ref} {before between after : AssociationState}

theorem target?_eq_some {target : Ref} : before.target? = some target ↔ before = one (some target) := by
  cases before with
  | one current => simp [target?]
  | deferred key => simp [target?]
  | many items => simp [target?]

/-- Where an owner is taken away and comes back, it has come. -/
theorem Gains.of_loses (loses : before.Loses owner between) (gains : between.Gains owner after) :
    before.Gains owner after := by
  cases before with
  | deferred key =>
    cases loses
    exact gains
  | one current =>
    cases loses
    exact gains
  | many items =>
    cases loses
    obtain ⟨others, rfl, member, once, rest⟩ := gains
    have absent : (items.filter (· ≠ owner)).count owner = 0 := List.count_eq_zero.mpr (by simp)
    refine ⟨others, rfl, member, fun _ => once (by rw [absent]; exact Nat.zero_le 1), rest.trans ?_⟩
    rw [List.filter_filter]
    simp only [Bool.and_self]

end AssociationState

namespace Instance

variable {i : Instance} {owning : Association} {n : Nat}

theorem inverseIndex?_eq_some : i.inverseIndex? owning = some n ↔ i.entity.SeesAt owning n := by
  have mapped (a : Association) :
      (a.mappedBy == some owning.name && a.target == owning.owner) = true ↔ a.IsMappedBy owning := by
    simp [Association.IsMappedBy]
  rw [inverseIndex?, List.findIdx?_eq_some_iff_getElem]
  constructor
  · rintro ⟨inside, here, before⟩
    refine ⟨⟨_, List.getElem?_eq_getElem inside, (mapped _).mp here⟩, fun m less a declared seen => ?_⟩
    have earlier := List.getElem?_eq_getElem (Nat.lt_trans less inside)
    cases earlier.symm.trans declared
    exact before m less ((mapped _).mpr seen)
  · rintro ⟨⟨a, declared, seen⟩, before⟩
    obtain ⟨inside, rfl⟩ := List.getElem?_eq_some_iff.mp declared
    refine ⟨inside, (mapped _).mpr seen, fun m less found => ?_⟩
    exact before m less _ (List.getElem?_eq_getElem (Nat.lt_trans less inside)) ((mapped _).mp found)

theorem inside_of_seesAt (shaped : i.Shaped) (sees : i.entity.SeesAt owning n) : n < i.states.length := by
  obtain ⟨⟨a, declared, _⟩, _⟩ := sees
  rw [shaped]
  exact (List.getElem?_eq_some_iff.mp declared).1

theorem gains_link (shaped : i.Shaped) (sees : i.entity.SeesAt owning n) (owner : Ref) :
    (i.stateAt n).Gains owner ((i.link owning owner).stateAt n) := by
  have inside := inside_of_seesAt shaped sees
  unfold link
  rw [inverseIndex?_eq_some.mpr sees]
  dsimp only
  split
  case h_1 items collects =>
    rw [stateAt_addItem_self collects, collects]
    by_cases known : owner ∈ items
    · rw [if_pos known]
      refine ⟨items, rfl, known, fun atMost => ?_, rfl⟩
      have atLeast := List.count_pos_iff.mpr known
      omega
    · rw [if_neg known]
      refine ⟨items ++ [owner], rfl, by simp, fun _ => ?_, by simp⟩
      rw [List.count_append, List.count_eq_zero.mpr known, List.count_singleton_self]
  case h_2 current refers =>
    rw [refers, stateAt_withState, if_pos ⟨rfl, inside⟩]
    rfl
  case h_3 key deferred =>
    rw [deferred]
    rfl

theorem loses_unlink (shaped : i.Shaped) (sees : i.entity.SeesAt owning n) (owner : Ref) :
    (i.stateAt n).Loses owner ((i.unlink owning owner).stateAt n) := by
  have inside := inside_of_seesAt shaped sees
  unfold unlink
  rw [inverseIndex?_eq_some.mpr sees]
  dsimp only
  split
  case h_1 items collects =>
    rw [collects, stateAt_withState, if_pos ⟨rfl, inside⟩]
    exact congrArg AssociationState.many (List.filter_congr fun item _ => by by_cases own : item = owner <;> simp [own])
  case h_2 current refers =>
    rw [refers]
    by_cases own : current = some owner
    · rw [if_pos own, stateAt_withState, if_pos ⟨rfl, inside⟩]
      exact congrArg AssociationState.one (if_pos own).symm
    · rw [if_neg own, refers]
      exact congrArg AssociationState.one (if_neg own).symm
  case h_3 key deferred =>
    rw [deferred]
    rfl

end Instance

namespace Heap

variable {h k : Heap} {r : Ref} {index n : Nat} {owning : Association} {target : Option Ref}

theorem holds_of_seesAt {s : Ref} (sees : (h.get s).entity.SeesAt owning n) : h.Holds s := by
  by_contra free
  obtain ⟨⟨a, declared, _⟩, _⟩ := sees
  rw [get_of_not_holds free] at declared
  cases declared

/-- A new target has the owner in its loaded inverse side, whether it was the old target or not. -/
theorem gains_followed {t : Ref} (shaped : (h.get t).Shaped) (sees : (h.get t).entity.SeesAt owning n)
    (old : Option Ref) :
    ((h.get t).stateAt n).Gains r (((h.followed r owning old (some t)).get t).stateAt n) := by
  have held := holds_of_seesAt sees
  cases old with
  | none =>
    rw [followed, Option.elim_some, Option.elim_none, get_modify_self held]
    exact Instance.gains_link shaped sees r
  | some o =>
    rw [followed, Option.elim_some, Option.elim_some, get_modify_self (holds_modify.mpr held)]
    by_cases same : o = t
    · subst same
      rw [get_modify_self held]
      have sees' : ((h.get o).unlink owning r).entity.SeesAt owning n := by
        rwa [((h.get o).alike_unlink owning r).entity]
      have shaped' : ((h.get o).unlink owning r).Shaped := Instance.lasting_shaped.unlink shaped owning r
      exact .of_loses (Instance.loses_unlink shaped sees r) (Instance.gains_link shaped' sees' r)
    · rw [get_modify_of_ne (Ne.symm same)]
      exact Instance.gains_link shaped sees r

/-- An old target has the owner no longer in its loaded inverse side. -/
theorem loses_followed {o : Ref} (shaped : (h.get o).Shaped) (sees : (h.get o).entity.SeesAt owning n)
    (left : target ≠ some o) :
    ((h.get o).stateAt n).Loses r (((h.followed r owning (some o) target).get o).stateAt n) := by
  have held := holds_of_seesAt sees
  have unlinked : ((h.followed r owning (some o) target).get o) = (h.get o).unlink owning r := by
    cases target with
    | none => rw [followed, Option.elim_none, Option.elim_some, get_modify_self held]
    | some t =>
      have apart : o ≠ t := fun same => left (congrArg some same.symm)
      rw [followed, Option.elim_some, get_modify_of_ne apart, Option.elim_some, get_modify_self held]
  rw [unlinked]
  exact Instance.loses_unlink shaped sees r

theorem dirty_followed (h : Heap) (r : Ref) (owning : Association) (old target : Option Ref) (s : Ref) :
    ((h.followed r owning old target).get s).dirty = (h.get s).dirty :=
  (followed_related Instance.Resembles.refl (fun _ _ _ => Instance.Resembles.trans) Instance.resembles_link
    Instance.resembles_unlink h r owning old target s).dirty

/-- Why an association cannot be pointed at a target. -/
inductive Refuses (h : Heap) (r : Ref) (association : String) (target : Option Ref) : Error → Prop where
  | unknown (missing : (h.get r).entity.associationIndex? association = none) :
    Refuses h r association target (.unknownAssociation (h.get r).entity.name association)
  | inverse {index : Nat} {a : Association} (found : (h.get r).entity.associationIndex? association = some index)
    (declared : (h.get r).entity.associations[index]? = some a) (side : a.isOwning = false) :
    Refuses h r association target (.invalidArgument (.inverseSide (h.get r).entity.name association))
  | wrongTarget {index : Nat} {a : Association} {t : Ref}
    (found : (h.get r).entity.associationIndex? association = some index)
    (declared : (h.get r).entity.associations[index]? = some a) (side : a.isOwning = true) (given : target = some t)
    (wrong : (h.get t).entity.name ≠ a.target) :
    Refuses h r association target
      (.invalidArgument (.wrongTarget (h.get r).entity.name association a.target (h.get t).entity.name))

/-- What pointing an owning association at a target does. The association is loaded with the target and its column counts
as changed if the instance is managed. The inverse side of the new target gains the instance, that of an old one, if it
is another, loses it. Nothing else changes. -/
structure Repoints (h k : Heap) (r : Ref) (index : Nat) (owning : Association) (target : Option Ref) : Prop where
  size : k.instances.size = h.instances.size
  shaped : k.Every Instance.Shaped
  alike : ∀ s, (h.get s).Alike (k.get s)
  loaded : (k.get r).stateAt index = .one target
  managed : (h.get r).managed = true → (k.get r).dirty =
    if owning.ownerColumn ∈ (h.get r).dirty then (h.get r).dirty else (h.get r).dirty ++ [owning.ownerColumn]
  unmanaged : (h.get r).managed = false → (k.get r).dirty = (h.get r).dirty
  clean : ∀ s, s ≠ r → (k.get s).dirty = (h.get s).dirty
  gains : ∀ t n, target = some t → (h.get t).entity.SeesAt owning n →
    ((h.get t).stateAt n).Gains r ((k.get t).stateAt n)
  loses : ∀ o n, (h.get r).stateAt index = .one (some o) → target ≠ some o → (h.get o).entity.SeesAt owning n →
    ((h.get o).stateAt n).Loses r ((k.get o).stateAt n)
  others : ∀ s n, (s = r → n ≠ index) →
    (target = some s ∨ (h.get r).stateAt index = .one (some s) → ¬(h.get s).entity.SeesAt owning n) →
    (k.get s).stateAt n = (h.get s).stateAt n

theorem stateAt_followed_of_other {old : Option Ref} {s : Ref}
    (apart : target = some s ∨ old = some s → ¬(h.get s).entity.SeesAt owning n) :
    ((h.followed r owning old target).get s).stateAt n = (h.get s).stateAt n := by
  by_cases reached : target = some s ∨ old = some s
  · exact stateAt_followed_of_ne h r owning old target fun found => apart reached (Instance.inverseIndex?_eq_some.mp found)
  · obtain ⟨notNew, notOld⟩ := not_or.mp reached
    have first : (old.elim h fun o => h.modify o (·.unlink owning r)).get s = h.get s := by
      cases old with
      | none => rfl
      | some o => exact get_modify_of_ne (fun same => notOld (congrArg some same.symm)) _
    cases target with
    | none => rw [followed, Option.elim_none, first]
    | some t => rw [followed, Option.elim_some, get_modify_of_ne fun same => notNew (congrArg some same.symm), first]

theorem size_followed (h : Heap) (r : Ref) (owning : Association) (old target : Option Ref) :
    (h.followed r owning old target).instances.size = h.instances.size := by
  have first : (old.elim h fun o => h.modify o (·.unlink owning r)).instances.size = h.instances.size := by
    cases old with
    | none => rfl
    | some o => exact size_modify h o _
  cases target with
  | none => exact first
  | some t => exact (size_modify _ t _).trans first

theorem repoints_of_ok {association : String} (shaped : h.Every Instance.Shaped)
    (run : h.setReference r association target = .ok k) :
    ∃ index owning, (h.get r).entity.associationIndex? association = some index ∧
      (h.get r).entity.associations[index]? = some owning ∧ owning.isOwning = true ∧
      h.Repoints k r index owning target := by
  have shapedStill := every_setReference Instance.lasting_shaped shaped run
  obtain ⟨index, owning, found, declared, owns, rfl⟩ := setReference_run run
  have held := holds_of_associationIndex found
  refine ⟨index, owning, Entity.associationIndex_eq_ok.mp found, declared, owns, ?_⟩
  generalize before : ((h.get r).stateAt index).target? = old
  have member : owning ∈ (h.get r).entity.associations := List.mem_of_getElem? declared
  have entity (s : Ref) : ((h.pointed r index owning target).get s).entity = (h.get s).entity := (alike_pointed s).entity
  have first : (h.pointed r index owning target).Every Instance.Shaped := every_modify shaped r fun own =>
    Instance.lasting_shaped.state _ _ _ rfl (Instance.lasting_shaped.touch _ owning member owns own)
  -- Pointing the association changes no inverse side: those are other associations.
  have unpointed {s : Ref} {n : Nat} (other : s = r → n ≠ index) :
      ((h.pointed r index owning target).get s).stateAt n = (h.get s).stateAt n := stateAt_pointed_of_ne other
  have unseen : ¬(h.get r).entity.SeesAt owning index := fun sees =>
    Instance.OwnsAt.ne_inverse ⟨owning, declared, owns⟩ owning (Instance.inverseIndex?_eq_some.mpr sees)
  have inverse {s : Ref} {n : Nat} (sees : (h.get s).entity.SeesAt owning n) : s = r → n ≠ index := by
    rintro rfl rfl
    exact unseen sees
  have touched : ((h.pointed r index owning target).get r).dirty = ((h.get r).touch owning.ownerColumn).dirty := by
    rw [pointed, get_modify_self held]
    rfl
  exact {
    size := (size_followed _ r owning old target).trans (size_modify h r _)
    shaped := before ▸ shapedStill
    alike := fun s => (alike_pointed s).trans (alike_followed _ r owning old target s)
    loaded := by
      rw [stateAt_followed_of_other, stateAt_pointed_self held (shaped r) declared]
      rintro - sees
      exact unseen (entity r ▸ sees)
    managed := fun managed => by rw [dirty_followed, touched, Instance.dirty_touch managed]
    unmanaged := fun unmanaged => by
      rw [dirty_followed, touched]
      simp [Instance.touch, unmanaged]
    clean := fun s other => by rw [dirty_followed, pointed, get_modify_of_ne other]
    gains := by
      rintro t n rfl sees
      have gains := gains_followed (r := r) (first t) (by rwa [entity]) old
      rwa [unpointed (inverse sees)] at gains
    loses := by
      intro o n refers left sees
      have same : old = some o := before.symm.trans (AssociationState.target?_eq_some.mpr refers)
      subst same
      have loses := loses_followed (r := r) (first o) (by rwa [entity]) left
      rwa [unpointed (inverse sees)] at loses
    others := by
      intro s n other apart
      rw [stateAt_followed_of_other, unpointed other]
      intro reached
      rw [entity]
      refine apart (reached.imp id fun same => ?_)
      exact AssociationState.target?_eq_some.mp (before.trans same) }

section Refusals

variable {association : String} {a : Association}

theorem setReference_of_missing (missing : (h.get r).entity.associationIndex? association = none) :
    h.setReference r association target = .error (.unknownAssociation (h.get r).entity.name association) := by
  rw [setReference, Entity.associationIndex, missing]
  rfl

theorem setReference_of_inverse (found : (h.get r).entity.associationIndex? association = some index)
    (declared : (h.get r).entity.associations[index]? = some a) (side : a.isOwning = false) :
    h.setReference r association target =
      .error (.invalidArgument (.inverseSide (h.get r).entity.name association)) := by
  have same := Entity.association_at declared
  rw [setReference, Entity.associationIndex_eq_ok.mpr found, Except.ok_bind]
  simp only [same, side, Bool.not_false, if_true]

theorem setReference_of_wrong {t : Ref} (found : (h.get r).entity.associationIndex? association = some index)
    (declared : (h.get r).entity.associations[index]? = some a) (side : a.isOwning = true)
    (wrong : (h.get t).entity.name ≠ a.target) :
    h.setReference r association (some t) = .error
      (.invalidArgument (.wrongTarget (h.get r).entity.name association a.target (h.get t).entity.name)) := by
  have same := Entity.association_at declared
  have kept : (some t).filter (fun t => (h.get t).entity.name != a.target) = some t := by simp [wrong]
  rw [setReference, Entity.associationIndex_eq_ok.mpr found, Except.ok_bind]
  simp only [same, side, Bool.not_true, Bool.false_eq_true, if_false, kept]

theorem setReference_of_fit (found : (h.get r).entity.associationIndex? association = some index)
    (declared : (h.get r).entity.associations[index]? = some a) (side : a.isOwning = true)
    (fits : ∀ t, target = some t → (h.get t).entity.name = a.target) :
    ∃ k, h.setReference r association target = .ok k := by
  have same := Entity.association_at declared
  have dropped : target.filter (fun t => (h.get t).entity.name != a.target) = none := by
    cases target with
    | none => rfl
    | some t => simp [fits t rfl]
  rw [setReference, Entity.associationIndex_eq_ok.mpr found, Except.ok_bind]
  simp only [same, side, Bool.not_true, Bool.false_eq_true, if_false, dropped]
  cases target with
  | none => exact ⟨_, rfl⟩
  | some t => exact ⟨_, rfl⟩

/-- The call fails for these reasons only, and for each of them. -/
theorem setReference_error {e : Error} :
    h.setReference r association target = .error e ↔ h.Refuses r association target e := by
  constructor
  · intro failed
    cases found : (h.get r).entity.associationIndex? association with
    | none =>
      cases (setReference_of_missing found).symm.trans failed
      exact .unknown found
    | some index =>
      have declared := Instance.association_of_associationIndex (Entity.associationIndex_eq_ok.mpr found)
      generalize (h.get r).entity.associations.getD index default = a at declared
      cases side : a.isOwning with
      | false =>
        cases (setReference_of_inverse found declared side).symm.trans failed
        exact .inverse found declared side
      | true =>
        by_cases fits : ∀ t, target = some t → (h.get t).entity.name = a.target
        · obtain ⟨k, run⟩ := setReference_of_fit found declared side fits
          cases run.symm.trans failed
        · obtain ⟨t, unfit⟩ := not_forall.mp fits
          obtain ⟨given, wrong⟩ := Classical.not_imp.mp unfit
          subst given
          cases (setReference_of_wrong found declared side wrong).symm.trans failed
          exact .wrongTarget found declared side rfl wrong
  · intro refused
    cases refused with
    | unknown missing => exact setReference_of_missing missing
    | inverse found declared side => exact setReference_of_inverse found declared side
    | wrongTarget found declared side given wrong =>
      subst given
      exact setReference_of_wrong found declared side wrong

end Refusals

/-- Pointing an association at a target, or at none, either fails for one of the reasons for it, and leaves the heap as it
is, or does what it says and no more. The instance, its old and its new target may be the same. -/
theorem setReference_repoints (shaped : h.Every Instance.Shaped) (r : Ref) (association : String)
    (target : Option Ref) :
    (∃ e, h.setReference r association target = .error e ∧ h.Refuses r association target e ∧
      h.edit (.setReference r association target) = h) ∨
    ∃ k index owning, h.setReference r association target = .ok k ∧ (∀ e, ¬h.Refuses r association target e) ∧
      h.edit (.setReference r association target) = k ∧
      (h.get r).entity.associationIndex? association = some index ∧
      (h.get r).entity.associations[index]? = some owning ∧ owning.isOwning = true ∧
      h.Repoints k r index owning target := by
  cases run : h.setReference r association target with
  | error e =>
    refine .inl ⟨e, rfl, setReference_error.mp run, ?_⟩
    rw [edit, run]
    rfl
  | ok k =>
    obtain ⟨index, owning, found, declared, owns, repoints⟩ := repoints_of_ok shaped run
    refine .inr ⟨k, index, owning, rfl, fun e refused => ?_, ?_, found, declared, owns, repoints⟩
    · cases (setReference_error.mpr refused).symm.trans run
    · rw [edit, run]
      rfl

/-- A node refers to another one or to itself. -/
def nodeEntity : Entity :=
  ⟨"Node", "nodes", [⟨"id", "id", .integer⟩], ⟨0, Nat.one_pos⟩,
    [⟨"parent", "Node", "Node", "nodes", .one, "parent_id", "id", none, .integer⟩,
      ⟨"children", "Node", "Node", "nodes", .many, "id", "parent_id", some "parent", .integer⟩]⟩

/-- Two nodes that belong to the first one. -/
def nodes : Heap :=
  ⟨#[⟨nodeEntity, [.int 1], [.one (some ⟨0⟩), .many [⟨0⟩, ⟨1⟩]], true, []⟩,
    ⟨nodeEntity, [.int 2], [.one (some ⟨0⟩), .many []], true, []⟩]⟩

theorem shaped_nodes : nodes.Every Instance.Shaped := by
  rintro ⟨index⟩
  match index with
  | 0 => rfl
  | 1 => rfl
  | n + 2 =>
    have free : ¬nodes.Holds ⟨n + 2⟩ := by simp [Holds, nodes]
    rw [get_of_not_holds free]
    rfl

theorem setReference_repoints_nodes : nodes.Every Instance.Shaped ∧
    ∃ k owning, nodes.setReference ⟨0⟩ "parent" (some ⟨0⟩) = .ok k ∧
      nodes.Repoints k ⟨0⟩ 0 owning (some ⟨0⟩) ∧
      (k.get ⟨0⟩).states = [.one (some ⟨0⟩), .many [⟨1⟩, ⟨0⟩]] ∧ (k.get ⟨0⟩).dirty = ["parent_id"] := by
  refine ⟨shaped_nodes, ?_⟩
  rcases setReference_repoints shaped_nodes ⟨0⟩ "parent" (some ⟨0⟩) with
    ⟨e, failed, _⟩ | ⟨k, index, owning, run, _, _, found, _, _, repoints⟩
  · cases failed
  · cases found
    cases run
    exact ⟨_, owning, rfl, repoints, rfl, rfl⟩

end Heap

end EntityMapper
