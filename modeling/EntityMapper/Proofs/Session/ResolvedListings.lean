import EntityMapper.Proofs.Session.QuietRequests

namespace EntityMapper

theorem Instance.fill_fill (i : Instance) (n : Nat) {state : AssociationState} (loaded : state.isLoaded = true) :
    (i.fill n state).fill n state = i.fill n state := by
  conv_lhs => rw [fill, if_pos (i.isLoaded_fill n loaded)]

namespace Heap

/-- Items point back at an instance, as far as they point nowhere yet. -/
def pointedBack (h : Heap) (items : List Ref) (back : Nat) (r : Ref) : Heap :=
  items.foldl (fun h item => h.modify item (·.fill back (.one (some r)))) h

theorem quiet_pointedBack (items : List Ref) (h : Heap) (back : Nat) (r : Ref) :
    h.Quiet (h.pointedBack items back r) := by
  induction items generalizing h with
  | nil => exact .refl h
  | cons item rest ih => exact trans_of Heap.Quiet (h.quiet_fill item back rfl) (ih _)

theorem get_modify_fill (h : Heap) (r : Ref) (n : Nat) (state : AssociationState) :
    (h.modify r (·.fill n state)).get r = (h.get r).fill n state := by
  by_cases held : h.Holds r
  · exact get_modify_self held _
  · rw [get_of_not_holds (mt holds_modify.mp held), get_of_not_holds held]
    rfl

theorem get_pointedBack (items : List Ref) (h : Heap) (back : Nat) (r s : Ref) :
    (h.pointedBack items back r).get s = if s ∈ items then (h.get s).fill back (.one (some r)) else h.get s := by
  induction items generalizing h with
  | nil => simp [pointedBack]
  | cons item rest ih =>
    have next := ih (h.modify item (·.fill back (.one (some r))))
    rw [pointedBack, List.foldl_cons, ← pointedBack, next]
    by_cases own : s = item
    · subst own
      rw [get_modify_fill, Instance.fill_fill _ _ rfl, ite_self, if_pos List.mem_cons_self]
    · rw [get_modify_of_ne own]
      simp only [List.mem_cons, own, false_or]

/-- The items that point back before their collection is loaded decide whether both sides still agree. -/
theorem decides_pointedBack {h : Heap} {items : List Ref} {back index : Nat} {r : Ref}
    (unloaded : (((h.pointedBack items back r).get r).stateAt index).isLoaded = false)
    (held : ∀ item ∈ items, h.Holds item) :
    h.Decides (∃ item ∈ items, ∃ place, (h.get r).entity.Faces index (h.get item).entity place ∧
        ((h.get item).fill back (.one (some r))).stateAt place ≠ .one (some r))
      ((h.pointedBack items back r).modify r (·.fill index (.many items))) := by
  have pointed := quiet_pointedBack items h back r
  have filled := accounts_fill unloaded fun item member => Accounts.holds pointed (held item member)
  have there : h.Holds r := by
    by_contra free
    rw [get_pointedBack, get_of_not_holds free] at unloaded
    split at unloaded
    · cases unloaded
    · cases unloaded
  have developed := (Quiet.accounts pointed filled).developed
  have entities {item : Ref} (member : item ∈ items) := (developed item (held item member)).entity
  have state {item : Ref} (member : item ∈ items) {place : Nat} (apart : item = r → place ≠ index) :
      (((h.pointedBack items back r).modify r (·.fill index (.many items))).get item).stateAt place =
        ((h.get item).fill back (.one (some r))).stateAt place := by
    have own := get_pointedBack items h back r item
    rw [if_pos member] at own
    rw [← own]
    by_cases same : item = r
    · subst same
      rw [get_modify_fill, Instance.stateAt_fill fun at_ => absurd at_ (apart rfl)]
    · rw [get_modify_of_ne same]
  refine (Quiet.decides_next pointed filled.decides).congr ⟨?_, ?_⟩
  · rintro ⟨_, _, item, place, ⟨rfl, rfl, member⟩, faces, other⟩
    rw [(developed _ there).entity, entities member] at faces
    rw [state member fun own at_ => faces.ne (by rw [own]) at_.symm] at other
    exact ⟨item, member, place, faces, other⟩
  · rintro ⟨item, member, place, faces, other⟩
    refine ⟨r, index, item, place, ⟨rfl, rfl, member⟩, ?_, ?_⟩
    · rw [(developed _ there).entity, entities member]
      exact faces
    · rw [state member fun own at_ => faces.ne (by rw [own]) at_.symm]
      exact other

end Heap

namespace Work

/-- Resolving loads a collection of an instance with the items that a query finds in a state; an item points back
through the association at `back`, unless it is loaded. -/
inductive Collects (w : Work) (r : Ref) (association : String) (index back : Nat) (items : List Ref) (middle : Work) :
    Prop
  | fetched {key : Value} {mappedBy : String} {target : Entity} {plan : Plan}
      (found : (w.heap.get r).entity.associationIndex association = .ok index)
      (deferred : (w.heap.get r).stateAt index = .deferred key)
      (inverse : ((w.heap.get r).entity.associations.getD index default).mappedBy = some mappedBy)
      (many : ((w.heap.get r).entity.associations.getD index default).cardinality = .many)
      (described : w.registry.describe ((w.heap.get r).entity.associations.getD index default).target = .ok target)
      (planned : Session.inversePlan w.registry target
        ((w.heap.get r).entity.associations.getD index default).target mappedBy key = .ok plan)
      (points : target.associationIndex mappedBy = .ok back)
      (read : Session.fetch Record.toEntity plan w = .ok items middle) (apart : r ∈ items → back ≠ index)

/-- One of the items of a resolved collection does not lead to the owner of the collection, even after it was to point
back. -/
def MisplacesItem (w : Work) (r : Ref) (association : String) : Prop :=
  ∃ index back items middle, w.Collects r association index back items middle ∧ ∃ item ∈ items, ∃ place,
    (middle.heap.get r).entity.Faces index (middle.heap.get item).entity place ∧
      ((middle.heap.get item).fill back (.one (some r))).stateAt place ≠ .one (some r)

end Work

namespace Session

/-- The end of resolving: the association is loaded unless it is loaded by now. -/
def fillIn (r : Ref) (index : Nat) (loaded : AssociationState) : SessionM AssociationState := do
  modifyInstance r (·.fill index loaded)
  let now ← load r
  pure (now.stateAt index)

/-- What was found behind an inverse association points back, and is counted. -/
def answer (r : Ref) (a : Association) (back : Nat) (items : List Ref) : SessionM AssociationState := do
  items.forM fun item => modifyInstance item (·.fill back (.one (some r)))
  match a.cardinality with
  | .many => pure (.many items)
  | .one => if 1 < items.length then throw (.nonUniqueResult items.length) else pure (.one items.head?)

theorem heap_fillIn (r : Ref) (index : Nat) (loaded : AssociationState) (w : Work) :
    (leaves (fillIn r index loaded) w).heap = w.heap.modify r (·.fill index loaded) := rfl

theorem quiet_fillIn (r : Ref) (index : Nat) {loaded : AssociationState} (empty : loaded.items = []) :
    Respects Quiet (fillIn r index loaded) :=
  .bind (quiet_fill r index empty) fun _ => .bind (respects_load r) fun _ => .pure _

theorem pointBack_run (items : List Ref) (back : Nat) (r : Ref) (w : Work) :
    (items.forM fun item => modifyInstance item (·.fill back (.one (some r))) : SessionM Unit) w =
      .ok () { w with heap := w.heap.pointedBack items back r } := by
  induction items generalizing w with
  | nil => rfl
  | cons item rest ih => exact ih { w with heap := w.heap.modify item (·.fill back (.one (some r))) }

section Resolved

variable {w : Work} {r : Ref} {association : String} {index back : Nat} {key : Value} {items : List Ref}

/-- An association that is unknown or loaded is not resolved. -/
theorem leaves_resolve_still (still : ∀ index key, (w.heap.get r).entity.associationIndex association = .ok index →
    (w.heap.get r).stateAt index ≠ .deferred key) : leaves (resolve r association) w = w := by
  have loaded : load r w = .ok (w.heap.get r) w := rfl
  unfold resolve
  rw [leaves_bind_of_ok loaded]
  cases found : (w.heap.get r).entity.associationIndex association with
  | error e => rfl
  | ok index =>
    simp only [check, pure_bind]
    cases state : (w.heap.get r).stateAt index with
    | deferred key => exact absurd state (still index key found)
    | one target => rfl
    | many targets => rfl

theorem resolve_run (found : (w.heap.get r).entity.associationIndex association = .ok index)
    (deferred : (w.heap.get r).stateAt index = .deferred key) {a : Association}
    (declared : (w.heap.get r).entity.associations.getD index default = a) :
    resolve r association w = ((match a.mappedBy with
      | none => loadOwning a key
      | some mappedBy => loadInverse r a mappedBy key) >>= fillIn r index) w := by
  have loaded : load r w = .ok (w.heap.get r) w := rfl
  have indexed : check ((w.heap.get r).entity.associationIndex association) w = .ok index w := by
    rw [found]
    rfl
  unfold resolve
  rw [bind_run, loaded]
  dsimp only
  rw [bind_run, indexed]
  dsimp only
  rw [deferred, declared]
  dsimp only
  cases a.mappedBy with
  | none => rfl
  | some mappedBy => rfl

theorem loadInverse_run {a : Association} {mappedBy : String} {target : Entity} {plan : Plan}
    (described : w.registry.describe a.target = .ok target)
    (planned : inversePlan w.registry target a.target mappedBy key = .ok plan)
    (points : target.associationIndex mappedBy = .ok back) :
    loadInverse r a mappedBy key w = (fetch Record.toEntity plan >>= answer r a back) w := by
  unfold loadInverse
  rw [bind_run, get_run]
  dsimp only
  rw [described]
  simp only [check, pure_bind]
  rw [planned]
  simp only [pure_bind, points]
  rfl

/-- An inverse association is loaded by a query; what it finds points back and fills the association. -/
theorem leaves_resolve_inverse (found : (w.heap.get r).entity.associationIndex association = .ok index)
    (deferred : (w.heap.get r).stateAt index = .deferred key) {a : Association}
    (declared : (w.heap.get r).entity.associations.getD index default = a) {mappedBy : String}
    (inverse : a.mappedBy = some mappedBy) {target : Entity} {plan : Plan}
    (described : w.registry.describe a.target = .ok target)
    (planned : inversePlan w.registry target a.target mappedBy key = .ok plan)
    (points : target.associationIndex mappedBy = .ok back) :
    leaves (resolve r association) w =
      leaves (fetch Record.toEntity plan >>= fun items => answer r a back items >>= fillIn r index) w := by
  have run := resolve_run found deferred declared
  rw [inverse] at run
  dsimp only at run
  unfold leaves
  rw [run, ← bind_assoc, bind_run, bind_run, loadInverse_run described planned points]

theorem heap_answer {a : Association} (many : a.cardinality = .many) (middle : Work) :
    (leaves (answer r a back items >>= fillIn r index) middle).heap =
      (middle.heap.pointedBack items back r).modify r (·.fill index (.many items)) := by
  have answered : answer r a back items middle =
      .ok (.many items) { middle with heap := middle.heap.pointedBack items back r } := by
    unfold answer
    rw [many, bind_run, pointBack_run]
    rfl
  rw [leaves_bind_of_ok answered, heap_fillIn]

/-- An inverse association without a plan loads nothing. -/
theorem loadInverse_unplanned {a : Association} {mappedBy : String} (unplanned : ∀ target plan,
    w.registry.describe a.target = .ok target → inversePlan w.registry target a.target mappedBy key ≠ .ok plan) :
    ∃ e, loadInverse r a mappedBy key w = .error e w := by
  unfold loadInverse
  rw [bind_run, get_run]
  dsimp only
  cases described : w.registry.describe a.target with
  | error e => exact ⟨e, rfl⟩
  | ok target =>
    simp only [check, pure_bind]
    cases planned : inversePlan w.registry target a.target mappedBy key with
    | error e => exact ⟨e, rfl⟩
    | ok plan => exact absurd planned (unplanned target plan described)

/-- What resolving leaves when it loads a collection. -/
theorem heap_resolve {middle : Work} (collects : w.Collects r association index back items middle) :
    (leaves (resolve r association) w).heap =
      (middle.heap.pointedBack items back r).modify r (·.fill index (.many items)) := by
  cases collects with
  | fetched found deferred inverse many described planned points read _ =>
    rw [leaves_resolve_inverse found deferred rfl inverse described planned points, leaves_bind_of_ok read,
      heap_answer many]

theorem joins_inversePlan {registry : Registry} {target : Entity} {entity mappedBy : String} {plan : Plan}
    (planned : inversePlan registry target entity mappedBy key = .ok plan) : plan.joins = [] := by
  obtain ⟨source, _, planned⟩ := Except.bind_eq_ok.mp planned
  obtain ⟨path, _, planned⟩ := Except.bind_eq_ok.mp planned
  obtain ⟨condition, _, planned⟩ := Except.bind_eq_ok.mp planned
  cases planned
  rfl

theorem quiet_answer_one {a : Association} (one : a.cardinality = .one) (r : Ref) (back : Nat) (items : List Ref)
    (index : Nat) : Respects Quiet (answer r a back items >>= fillIn r index) := by
  have pointed : Respects Quiet
      (items.forM fun item => modifyInstance item (·.fill back (.one (some r))) : SessionM Unit) := by
    intro w
    rw [Quiet, leaves_of_ok (pointBack_run items back r w)]
    exact Heap.quiet_pointedBack items w.heap back r
  unfold answer
  rw [one, bind_assoc]
  refine .bind pointed fun _ => ?_
  dsimp only
  split
  · exact .throw _
  · rw [pure_bind]
    exact quiet_fillIn r index rfl

/-- A collection that its own items have filled is not filled again. -/
theorem quiet_refill (h : Heap) (member : r ∈ items) (index : Nat) :
    h.Quiet ((h.pointedBack items index r).modify r (·.fill index (.many items))) := by
  have loaded : (((h.pointedBack items index r).get r).stateAt index).isLoaded = true := by
    rw [Heap.get_pointedBack, if_pos member]
    exact Instance.isLoaded_fill _ _ rfl
  have same : ((h.pointedBack items index r).get r).fill index (.many items) = (h.pointedBack items index r).get r := by
    rw [Instance.fill, if_pos loaded]
  refine trans_of Heap.Quiet (Heap.quiet_pointedBack items h index r) (Heap.quiet_of_states _ r ?_ ?_)
  · rw [same]
  · rw [same]

/-- An owning association is loaded without any collection. -/
theorem quiet_owning (a : Association) (key : Value) (r : Ref) (index : Nat) :
    Respects Quiet (loadOwning a key >>= fillIn r index) := by
  unfold loadOwning
  rw [bind_assoc]
  exact .bind (quiet_find a.target key) fun t => quiet_fillIn r index rfl

/-- Loading an inverse association adds nothing to a collection if what is found is not collected. -/
theorem quiet_resolve_inverse (found : (w.heap.get r).entity.associationIndex association = .ok index)
    (state : (w.heap.get r).stateAt index = .deferred key) {mappedBy : String}
    (inverse : ((w.heap.get r).entity.associations.getD index default).mappedBy = some mappedBy) {target : Entity}
    {plan : Plan}
    (described : w.registry.describe ((w.heap.get r).entity.associations.getD index default).target = .ok target)
    (planned : inversePlan w.registry target ((w.heap.get r).entity.associations.getD index default).target mappedBy
      key = .ok plan)
    (none : ∀ index back items middle, ¬w.Collects r association index back items middle) :
    Quiet w (leaves (resolve r association) w) := by
  obtain ⟨back, points⟩ := inversePlan_ok described planned
  have fetching := respects_fetch Record.toEntity (quiet_fetchRecords (joins_inversePlan planned)) w
  rw [leaves_resolve_inverse found state rfl inverse described planned points]
  cases read : fetch Record.toEntity plan w with
  | error e after =>
    rw [leaves_of_error read] at fetching
    rw [leaves_bind_of_error read]
    exact fetching
  | ok items middle =>
    rw [leaves_of_ok read] at fetching
    rw [leaves_bind_of_ok read]
    refine trans_of Quiet fetching ?_
    cases cardinality : ((w.heap.get r).entity.associations.getD index default).cardinality with
    | one => exact quiet_answer_one cardinality r back items index middle
    | many =>
      rw [Quiet, heap_answer cardinality]
      by_cases apart : r ∈ items → back ≠ index
      · exact absurd (.fetched found state inverse cardinality described planned points read apart)
          (none index back items middle)
      · obtain ⟨member, same⟩ := Classical.not_imp.mp apart
        rw [not_not.mp same]
        exact quiet_refill middle.heap member index

/-- Resolving that loads no collection adds nothing to any. -/
theorem quiet_resolve (none : ∀ index back items middle, ¬w.Collects r association index back items middle) :
    Quiet w (leaves (resolve r association) w) := by
  by_cases deferred : ∃ index key, (w.heap.get r).entity.associationIndex association = .ok index ∧
      (w.heap.get r).stateAt index = .deferred key
  case neg =>
    rw [leaves_resolve_still fun index key found state => deferred ⟨index, key, found, state⟩]
    exact .refl _
  case pos =>
    obtain ⟨index, key, found, state⟩ := deferred
    have run := resolve_run found state rfl
    cases inverse : ((w.heap.get r).entity.associations.getD index default).mappedBy with
    | none =>
      have owned := quiet_owning ((w.heap.get r).entity.associations.getD index default) key r index w
      rw [inverse] at run
      unfold leaves at owned ⊢
      rw [run]
      exact owned
    | some mappedBy =>
      rw [inverse] at run
      dsimp only at run
      by_cases plans : ∃ target plan,
          w.registry.describe ((w.heap.get r).entity.associations.getD index default).target = .ok target ∧
            inversePlan w.registry target ((w.heap.get r).entity.associations.getD index default).target mappedBy key =
              .ok plan
      case neg =>
        obtain ⟨e, failed⟩ := loadInverse_unplanned fun target plan described planned =>
          plans ⟨target, plan, described, planned⟩
        have stopped : resolve r association w = .error e w := by rw [run, bind_run, failed]
        rw [leaves_of_error stopped]
        exact .refl _
      case pos =>
        obtain ⟨target, plan, described, planned⟩ := plans
        exact quiet_resolve_inverse found state inverse described planned none

theorem misplacesItem_iff {middle : Work} (collects : w.Collects r association index back items middle) :
    w.MisplacesItem r association ↔ ∃ item ∈ items, ∃ place,
      (middle.heap.get r).entity.Faces index (middle.heap.get item).entity place ∧
        ((middle.heap.get item).fill back (.one (some r))).stateAt place ≠ .one (some r) := by
  refine ⟨?_, fun misplaced => ⟨index, back, items, middle, collects, misplaced⟩⟩
  rintro ⟨_, _, _, _, others, misplaced⟩
  -- There is at most one collection to load.
  obtain ⟨found, deferred, inverse, _, described, planned, points, read, _⟩ := collects
  obtain ⟨found', deferred', inverse', _, described', planned', points', read', _⟩ := others
  cases found.symm.trans found'
  cases deferred.symm.trans deferred'
  cases inverse.symm.trans inverse'
  cases described.symm.trans described'
  cases planned.symm.trans planned'
  cases points.symm.trans points'
  cases read.symm.trans read'
  exact misplaced

/-- What is known when the items of a collection are read: nothing is in it yet, and the items are there. -/
theorem collects_middle (valid : w.Valid) {middle : Work}
    (collects : w.Collects r association index back items middle) :
    Quiet w middle ∧ (((middle.heap.pointedBack items back r).get r).stateAt index).isLoaded = false ∧
      ∀ item ∈ items, middle.heap.Holds item := by
  obtain @⟨key, mappedBy, target, plan, found, deferred, _, _, _, planned, _, read, apart⟩ := collects
  have unjoined := joins_inversePlan planned
  have unloaded : ((w.heap.get r).stateAt index).isLoaded = false := by
    rw [deferred]
    rfl
  refine ⟨?_, ?_, fun item member => ?_⟩
  · have quiet := respects_fetch Record.toEntity (quiet_fetchRecords unjoined) w
    rw [leaves_of_ok read] at quiet
    exact quiet
  · have same := state_fetchRecords unjoined (Heap.holds_of_deferred unloaded) index
    rw [← leaves_fetch Record.toEntity, leaves_of_ok read] at same
    rw [Heap.get_pointedBack]
    split
    case isTrue member =>
      rw [Instance.stateAt_fill fun equal => absurd equal.symm (apart member), same]
      exact unloaded
    case isFalse =>
      rw [same]
      exact unloaded
  · have registered := yields_fetch faithful_toEntity plan w items middle valid read item
      (List.mem_flatMap.mpr ⟨item, member, List.mem_singleton.mpr rfl⟩)
    obtain ⟨_, keyed, _⟩ := Work.registered_iff.mp registered
    exact Heap.holds_of_key keyed

/-- The items of a collection decide whether both sides still agree when it is resolved. -/
theorem decides_resolve (valid : w.Valid) (r : Ref) (association : String) :
    w.heap.Decides (w.MisplacesItem r association) (leaves (resolve r association) w).heap := by
  by_cases none : ∀ index back items middle, ¬w.Collects r association index back items middle
  · refine Heap.Quiet.decides_never (quiet_resolve none) ?_
    rintro ⟨index, back, items, middle, collects, _⟩
    exact none index back items middle collects
  · simp only [not_forall, not_not] at none
    obtain ⟨index, back, items, middle, collects⟩ := none
    obtain ⟨reading, unloaded, held⟩ := collects_middle valid collects
    rw [heap_resolve collects]
    exact (Heap.Quiet.decides_next reading (Heap.decides_pointedBack unloaded held)).congr
      (misplacesItem_iff collects).symm

end Resolved

end Session

end EntityMapper
