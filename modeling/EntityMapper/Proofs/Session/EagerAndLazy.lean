import EntityMapper.Proofs.Session.FirstResult
import EntityMapper.Proofs.Session.InversePlans
import EntityMapper.Proofs.Session.JoinedRows

namespace EntityMapper

namespace Session

/-- Loads an association to one with the rows of a plan. -/
def loadEagerly (p : Plan) (r : Ref) (association : String) : SessionM (Option Ref) := do
  let _ ← fetch Record.toEntity p
  let i ← load r
  check (i.reference association)

/-- Loads an association to one when it is asked for. -/
def loadLazily (r : Ref) (association : String) : SessionM (Option Ref) := do
  let _ ← resolve r association
  let i ← load r
  check (i.reference association)

/-- An association to one is loaded alike: with the same instance or with none, or it is found to have several in both
ways. -/
inductive LoadsAlike : EStateM.Result Error Work (Option Ref) → EStateM.Result Error Work (Option Ref) → Prop
  | loaded (target : Option Ref) (eager lazy : Work) : LoadsAlike (.ok target eager) (.ok target lazy)
  | several (n m : Nat) (eager lazy : Work) :
      LoadsAlike (.error (.nonUniqueResult n) eager) (.error (.nonUniqueResult m) lazy)

theorem LoadsAlike.isSome {m n : SessionM (Option Ref)} {w v : Work} (alike : LoadsAlike (m w) (n v)) :
    (m.run' w).isSome = (n.run' v).isSome := by
  unfold EStateM.run' EStateM.run
  generalize m w = eager at *
  generalize n v = lazy at *
  cases alike with
  | loaded => rfl
  | several => rfl

end Session

/-- A session in a transaction, on a registry that describes the entities of all instances that the session knows. -/
structure Work.Settled (definitions : List Definition) (w : Work) : Prop where
  built : Registry.build definitions = .ok w.registry
  valid : w.Valid
  described : ∀ r ∈ w.identity.refs, w.registry.Describes (w.heap.get r).entity
  active : w.unit.checkActive "execute" = .ok ()

/-- A session knows an owner, and an inverse association to one of it is deferred with a key of the owner's kind. -/
structure Work.Awaits (w : Work) (key : EntityKey) (r : Ref) (a : Association) (t : Entity) : Prop where
  known : w.identity.get? key = some r
  listed : a ∈ (w.heap.get r).entity.associations
  inverse : a.isOwning = false
  one : a.cardinality = .one
  leads : w.registry.describe a.target = .ok t
  deferred : ∃ id, (w.heap.get r).state a.name = .ok (.deferred id) ∧ id.isNull = false ∧
    id.HasType (w.heap.get r).entity.primaryKey.type

/-- Where an owner has an association that waits with a key, and where the targets have the one that it is mapped by. On
one entity these are two places. -/
structure Work.Waits (w : Work) (r : Ref) (a : Association) (e : Entity) (index back : Nat) (mappedBy : String)
    (id : Value) : Prop where
  one : a.cardinality = .one
  declared : (w.heap.get r).entity.associationIndex a.name = .ok index
  listed : (w.heap.get r).entity.associations.getD index default = a
  inverse : a.mappedBy = some mappedBy
  leads : w.registry.describe a.target = .ok e
  points : e.associationIndex mappedBy = .ok back
  deferred : (w.heap.get r).stateAt index = .deferred id
  apart : (w.heap.get r).entity = e → index ≠ back

/-- The session when instances have been read by a statement. -/
def Work.afterReading (w : Work) (k : Hydration) (statement : Statement) : Work :=
  { w with
    heap := k.heap
    identity := ⟨w.identity.entries ++ k.staged⟩
    store := w.store.note (.statement statement) }

/-- The plan selects one entity and fetches one association of it. -/
def Plan.Fetches (registry : Registry) (d : Dialect) (p : Plan) (o : Alias) (a : Association) (t : Alias) : Prop :=
  ∃ query, compile registry d p = .ok query ∧ query.layout = .ofProjections [.entity o] [⟨o.name, a, t⟩]

/-- The rows of an owner joined with those of its targets: one for each target, or one without any. -/
def joinedRows (own : List Value) (width : Nat) (rows : List (List Value)) : List (List Value) :=
  if rows.isEmpty then [own ++ List.replicate width .null] else rows.map (own ++ ·)

namespace Session

/-- What a request leaves in an association is read from the instance. -/
theorem load_reference {α : Type} {m : SessionM α} {found : α} {w after : Work} {r : Ref} {association : String}
    {target : Option Ref} (run : m w = .ok found after)
    (reference : (after.heap.get r).reference association = .ok target) :
    (do
      let _ ← m
      let i ← load r
      check (i.reference association) : SessionM (Option Ref)) w = .ok target after := by
  have loaded : load r after = .ok (after.heap.get r) after := rfl
  rw [bind_run, run]
  dsimp only
  rw [bind_run, loaded]
  dsimp only
  rw [reference]
  rfl

/-- What loading leaves: the items that were read point back, and the first of them fills the association. -/
def loadedHeap (h : Heap) (r : Ref) (index back : Nat) (items : List Ref) : Heap :=
  (h.pointedBack items back r).modify r (·.fill index (.one items.head?))

theorem answer_one {a : Association} (one : a.cardinality = .one) (r : Ref) (back : Nat) (items : List Ref) (w : Work) :
    answer r a back items w = if 1 < items.length
      then .error (.nonUniqueResult items.length) { w with heap := w.heap.pointedBack items back r }
      else .ok (.one items.head?) { w with heap := w.heap.pointedBack items back r } := by
  unfold answer
  rw [one, bind_run, pointBack_run]
  dsimp only
  split
  · rfl
  · rfl

section Loading

variable {w : Work} {r : Ref} {a : Association} {index back : Nat} {mappedBy : String} {id : Value} {t : Alias}
  {rows : List (List Value)} {items : List Ref} {k : Hydration}
  (waits : w.Waits r a t.entity index back mappedBy id)
  (reads : Hydration.ReadsEach t.entity ⟨w.heap, w.identity, [], []⟩ rows items k)

include waits reads

/-- Only instances of the owner's own entity can be the owner. -/
theorem apart_of_mem (member : r ∈ items) : index ≠ back := by
  have same := reads.own r member
  rw [reads.get (Heap.holds_of_associationIndex waits.declared)] at same
  exact waits.apart same

theorem stateAt_loadedHeap : ((loadedHeap k.heap r index back items).get r).entity = (w.heap.get r).entity ∧
    ((loadedHeap k.heap r index back items).get r).stateAt index = .one items.head? := by
  have same : k.heap.get r = w.heap.get r := reads.get (Heap.holds_of_associationIndex waits.declared)
  have unloaded : ((w.heap.get r).stateAt index).isLoaded = false := by
    rw [waits.deferred]
    rfl
  rw [loadedHeap, Heap.get_modify_fill, Heap.get_pointedBack, same]
  split
  case isTrue member =>
    have alike := (w.heap.get r).alike_fill back (.one (some r))
    refine ⟨(alike.trans (Instance.alike_fill _ index _)).entity, Instance.stateAt_fill_self ?_ _⟩
    rw [Instance.stateAt_fill fun at_ => absurd at_ (apart_of_mem waits reads member)]
    exact unloaded
  case isFalse => exact ⟨((w.heap.get r).alike_fill index _).entity, Instance.stateAt_fill_self unloaded _⟩

/-- The association reads as what was loaded. -/
theorem reference_loadedHeap :
    ((loadedHeap k.heap r index back items).get r).reference a.name = .ok items.head? := by
  obtain ⟨entity, state⟩ := stateAt_loadedHeap waits reads
  rw [Instance.reference, Instance.state, entity, waits.declared, Except.ok_bind, state]
  rfl

section Eager

variable {key : EntityKey} {o : Alias} {own : List Value} (width : own.length = o.entity.columnCount)
  (keyed : (⟨o.entity, own⟩ : EntityColumns).key? = some key) (known : w.identity.get? key = some r)

include width keyed known

theorem recordsOf_joinedRows :
    ∃ found, Hydration.recordsOf (.ofProjections [.entity o] [⟨o.name, a, t⟩]) (joinedRows own t.entity.columnCount rows)
        ⟨w.heap, w.identity, [], []⟩ = .ok found { k with heap := loadedHeap k.heap r index back items } ∧
      ∀ record ∈ found, record = .cell (.entity (some r)) := by
  have led : (⟨w.heap, w.identity, [], []⟩ : Hydration).lookup key = some r := by
    rw [Hydration.lookup, known, Option.some_or]
  cases reads with
  | nil =>
    exact ⟨_, Hydration.recordsOf_alone waits.one width keyed led waits.declared, fun record => List.mem_singleton.mp⟩
  | @cons h m k row rows item items wide run itself rest =>
    have all := Hydration.ReadsEach.cons wide run itself rest
    have joined := Hydration.recordsOf_joined waits.one [] width keyed all led waits.declared waits.inverse waits.points
      fun _ none => absurd none List.not_mem_nil
    rw [List.nil_append, Heap.attached_cons _ (apart_of_mem waits all)] at joined
    exact ⟨_, joined, fun record member => (List.mem_map.mp member).elim fun _ same => same.2.symm⟩

/-- A fetch join loads the first of the targets, however many there are. -/
theorem loadEagerly_run {p : Plan} (fetches : p.Fetches w.registry w.dialect o a t)
    (active : w.unit.checkActive "execute" = .ok ()) (names : List String) :
    ∃ eager, loadEagerly p r a.name (w.answering ⟨names, joinedRows own t.entity.columnCount rows⟩) =
      .ok items.head? eager ∧ eager.heap = loadedHeap k.heap r index back items ∧
      eager.identity = ⟨w.identity.entries ++ k.staged⟩ := by
  obtain ⟨query, compiled, layout⟩ := fetches
  obtain ⟨found, run, owners⟩ := recordsOf_joinedRows waits reads width keyed known
  rw [← layout] at run
  change Hydration.recordsOf query.layout (RowSet.mk names _).rows _ = _ at run
  have fetched := fetchRecords_answering compiled active run
  have decoded : Accepted ((if p.distinct && !query.layout.fetches.isEmpty then Record.distinct found else
      found).mapM Record.toEntity) := by
    refine accepted_mapM.mpr fun record member => ⟨r, ?_⟩
    have listed : record ∈ found := by
      split at member
      · exact mem_of_mem_distinctFrom member
      · exact member
    rw [owners record listed]
    rfl
  obtain ⟨results, decoded⟩ := decoded
  have read := fetch_of_records fetched decoded
  exact ⟨_, load_reference read (reference_loadedHeap waits reads), rfl, rfl⟩

end Eager

section Lazy

variable {plan : Plan} {query : CompiledQuery}
  (planned : inversePlan w.registry t.entity a.target mappedBy id = .ok plan)
  (compiled : compile w.registry w.dialect plan = .ok query)
  (layout : query.layout = .ofProjections [.entity ⟨t.entity.table, t.entity⟩] [])
  (active : w.unit.checkActive "execute" = .ok ()) (names : List String)

include planned compiled layout active

/-- Resolving reads the targets with one statement. -/
theorem resolve_answering : resolve r a.name (w.answering ⟨names, rows⟩) =
    (answer r a back items >>= fillIn r index) (w.afterReading k query.statement) := by
  have run := Hydration.recordsOf_entity (s := ⟨t.entity.table, t.entity⟩) reads
  rw [← layout] at run
  change Hydration.recordsOf query.layout (RowSet.mk names rows).rows _ = _ at run
  have fetched := fetchRecords_answering compiled active run
  rw [layout] at fetched
  have decoded : (items.map fun item => Record.cell (.entity (some item))).mapM Record.toEntity = .ok items :=
    Except.mapM_eq_ok.mpr (List.forall₂_map_left_iff.mpr (List.forall₂_same.mpr fun _ _ => rfl))
  have read := fetch_of_records fetched (by simpa [Layout.ofProjections, Layout.bind] using decoded)
  rw [resolve_run (w := w.answering ⟨names, rows⟩) waits.declared waits.deferred waits.listed, waits.inverse]
  dsimp only
  rw [bind_run, loadInverse_run (w := w.answering ⟨names, rows⟩) waits.leads planned waits.points, bind_run, read]
  rfl

/-- Resolving refuses several targets. -/
theorem loadLazily_several (several : 1 < items.length) :
    ∃ lazy, loadLazily r a.name (w.answering ⟨names, rows⟩) = .error (.nonUniqueResult items.length) lazy := by
  refine ⟨{ w.afterReading k query.statement with heap := k.heap.pointedBack items back r }, ?_⟩
  unfold loadLazily
  rw [bind_run, resolve_answering waits reads planned compiled layout active names, bind_run, answer_one waits.one,
    if_pos several]
  rfl

/-- Resolving loads the only target or none, and leaves what a fetch join leaves. -/
theorem loadLazily_run (few : items.length ≤ 1) :
    ∃ lazy, loadLazily r a.name (w.answering ⟨names, rows⟩) = .ok items.head? lazy ∧
      lazy.heap = loadedHeap k.heap r index back items ∧ lazy.identity = ⟨w.identity.entries ++ k.staged⟩ := by
  have filled : resolve r a.name (w.answering ⟨names, rows⟩) = .ok (.one items.head?)
      { w.afterReading k query.statement with heap := loadedHeap k.heap r index back items } := by
    rw [resolve_answering waits reads planned compiled layout active names, bind_run, answer_one waits.one,
      if_neg (Nat.not_lt.mpr few)]
    exact congrArg (EStateM.Result.ok · _) (stateAt_loadedHeap waits reads).2
  exact ⟨_, load_reference filled (reference_loadedHeap waits reads), rfl, rfl⟩

end Lazy

end Loading

/-- Without a name for the table of the targets nothing is resolved. -/
theorem loadLazily_unnamed {w : Work} {r : Ref} {a : Association} {e : Entity} {index back : Nat} {mappedBy : String}
    {id : Value} (waits : w.Waits r a e index back mappedBy id) (unnamed : e.table = "") (rows : RowSet) :
    loadLazily r a.name (w.answering rows) = .error (.invalidArgument .emptyAlias) (w.answering rows) := by
  have described : (w.answering rows).registry.describe a.target = .ok e := waits.leads
  have refused : loadInverse r a mappedBy id (w.answering rows) =
      .error (.invalidArgument .emptyAlias) (w.answering rows) := by
    unfold loadInverse
    rw [bind_run, get_run]
    dsimp only
    rw [described, check, pure_bind, inversePlan_unnamed described unnamed]
    rfl
  have run := resolve_run (w := w.answering rows) waits.declared waits.deferred waits.listed
  rw [waits.inverse, bind_run] at run
  dsimp only at run
  rw [refused] at run
  unfold loadLazily
  rw [bind_run, run]

end Session

theorem Work.Settled.describes {definitions : List Definition} {w : Work} (settled : w.Settled definitions) :
    (⟨w.heap, w.identity, [], []⟩ : Hydration).Describes w.registry := by
  intro key r led
  have found : w.identity.get? key = some r := by simpa [Hydration.lookup] using led
  have member := IdentityMap.mem_of_get? found
  have keyed := settled.valid.keyed key r member
  exact ⟨Heap.holds_of_key keyed, settled.described r (IdentityMap.mem_refs member), (EntityKey.entity_of keyed).symm⟩

theorem Work.Settled.owner_described {definitions : List Definition} {w : Work} (settled : w.Settled definitions)
    {key : EntityKey} {r : Ref} (known : w.identity.get? key = some r) : w.registry.Describes (w.heap.get r).entity :=
  settled.described r (IdentityMap.mem_refs (IdentityMap.mem_of_get? known))

/-- An association that a session awaits has its place, and what it is mapped by has another one. -/
theorem Work.Awaits.waits {definitions : List Definition} {w : Work} {key : EntityKey} {r : Ref} {a : Association}
    {e : Entity} (awaits : w.Awaits key r a e) (settled : w.Settled definitions) :
    ∃ index back mappedBy id, w.Waits r a e index back mappedBy id ∧ id.isNull = false ∧
      id.HasType (w.heap.get r).entity.primaryKey.type := by
  obtain ⟨id, state, present, typed⟩ := awaits.deferred
  obtain ⟨index, declared, state⟩ := Except.bind_eq_ok.mp state
  have described := settled.owner_described awaits.known
  have distinct := Registry.nodup_associations settled.built (Registry.mem_of_describe described)
  have atIndex := Instance.association_of_associationIndex declared
  have listed : (w.heap.get r).entity.associations.getD index default = a :=
    List.inj_on_of_nodup_map distinct (List.mem_of_getElem? atIndex) awaits.listed
      (Entity.name_of_associationIndex declared atIndex)
  obtain ⟨mappedBy, inverse⟩ : ∃ mappedBy, a.mappedBy = some mappedBy := by
    have seen := awaits.inverse
    unfold Association.isOwning at seen
    exact Option.ne_none_iff_exists'.mp fun none => by simp [none] at seen
  obtain ⟨b, owned, rfl, _, _⟩ := Registry.owning_of_mappedBy settled.built described awaits.listed inverse awaits.leads
  obtain ⟨back, points⟩ := Entity.associationIndex_of_mem owned
  refine ⟨index, back, b.name, id, ⟨awaits.one, declared, listed, inverse, awaits.leads, points, Except.ok.inj state, ?_⟩,
    present, typed⟩
  rintro rfl rfl
  -- On one entity an inverse association would be the owning one that it is mapped by.
  have name : a.name = b.name := (Entity.name_of_associationIndex declared atIndex).symm.trans
    (Entity.name_of_associationIndex points atIndex)
  exact Registry.name_ne_mappedBy settled.built described awaits.listed inverse awaits.leads awaits.listed awaits.inverse
    name

/-- The first of the instances that are read is the one that its row's key stands for. -/
theorem Hydration.ReadsEach.head? {w : Work} {e : Entity} {rows : List (List Value)} {items : List Ref} {k : Hydration}
    (reads : ReadsEach e ⟨w.heap, w.identity, [], []⟩ rows items k) :
    items.head? = rows.head?.bind fun row =>
      (⟨e, row⟩ : EntityColumns).key?.bind (⟨w.identity.entries ++ k.staged⟩ : IdentityMap).get? := by
  have registered (key : EntityKey) : (⟨w.identity.entries ++ k.staged⟩ : IdentityMap).get? key = k.lookup key := by
    rw [IdentityMap.get?, List.lookup_append, Hydration.lookup, reads.extends.identity]
    rfl
  cases reads with
  | nil => rfl
  | @cons h m k row rows item items width run own rest =>
    have resolved := ((reads_entity run).resolves.extends rest.extends).eq
    rw [List.head?_cons, List.head?_cons, Option.bind_some, ← resolved]
    exact congrArg (Option.bind _) (funext fun key => (registered key).symm)

namespace Session

def holderAssociation : Association :=
  ⟨"holder", "Badge", "Employee", "employee", .one, "id", "badge_id", some "badge", .integer⟩

def badgeEntity : Entity := ⟨"Badge", "badge", [⟨"id", "id", .integer⟩], ⟨0, Nat.one_pos⟩, [holderAssociation]⟩

def employeeEntity : Entity :=
  ⟨"Employee", "employee", [⟨"id", "id", .integer⟩], ⟨0, Nat.one_pos⟩,
    [⟨"badge", "Employee", "Badge", "badge", .one, "badge_id", "id", none, .integer⟩]⟩

def badgeDefinitions : List Definition := [
  ⟨"Badge", "badge", [.id "id" .integer, .inverse "holder" "Employee" "badge" .one]⟩,
  ⟨"Employee", "employee", [.id "id" .integer, .reference "badge" "Badge" "badge_id"]⟩]

/-- A session that knows a badge, and not whose it is. -/
def badgeWork : Work :=
  { Work.begun ⟨[badgeEntity, employeeEntity]⟩ .postgres with
    heap := ⟨#[⟨badgeEntity, [.int 1], [.deferred (.int 1)], true, []⟩]⟩
    identity := ⟨[(⟨"Badge", .int 1⟩, ⟨0⟩)]⟩ }

/-- The badges with their holders. -/
def holderPlan : Plan :=
  { Plan.ofEntity ⟨"badge", badgeEntity⟩ with
    joins := [⟨.left, ⟨"employee", employeeEntity⟩,
      some ⟨⟨"badge", badgeEntity⟩, [], holderAssociation, employeeEntity⟩, none, true⟩] }

theorem badgeWork_settled : badgeWork.Settled badgeDefinitions where
  built := rfl
  valid := by
    refine ⟨fun key r member => ?_, List.nodup_singleton _, List.forall_mem_singleton.mpr rfl⟩
    cases List.mem_singleton.mp member
    rfl
  described := List.forall_mem_singleton.mpr rfl
  active := rfl

theorem badgeWork_awaits : badgeWork.Awaits ⟨"Badge", .int 1⟩ ⟨0⟩ holderAssociation employeeEntity where
  known := rfl
  listed := List.mem_singleton_self _
  inverse := rfl
  one := rfl
  leads := rfl
  deferred := ⟨.int 1, rfl, rfl, fun _ same => (Option.some.inj same).symm⟩

theorem holderPlan_fetches : holderPlan.Fetches badgeWork.registry badgeWork.dialect ⟨"badge", badgeEntity⟩
    holderAssociation ⟨"employee", employeeEntity⟩ := ⟨_, rfl, rfl⟩

/-- The rows of an employee with the badge. -/
theorem instantiates_employee (id : Int64) : (⟨employeeEntity, [.int id, .int 1]⟩ : EntityColumns).Instantiates where
  width := rfl
  keyed := ⟨⟨"Employee", .int id⟩, rfl⟩
  read := ⟨.int id, _, rfl, rfl⟩

/-- An inverse association to one that a fetch join loads for a known owner is loaded when it is resolved instead, with
the same instance, or none, and with the same states of all instances, if there is one target at most. With several the
join takes the first of them, and resolving refuses. -/
theorem loadsAlike_iff {definitions : List Definition} {w : Work} (settled : w.Settled definitions) {key : EntityKey}
    {r : Ref} {a : Association} {o t : Alias} (awaits : w.Awaits key r a t.entity) {p : Plan}
    (fetches : p.Fetches w.registry w.dialect o a t) {own : List Value} (width : own.length = o.entity.columnCount)
    (keyed : (⟨o.entity, own⟩ : EntityColumns).key? = some key) {rows : List (List Value)}
    (targets : ∀ row ∈ rows, (⟨t.entity, row⟩ : EntityColumns).Instantiates) (names others : List String) :
    ∃ target eager lazy,
      loadEagerly p r a.name (w.answering ⟨names, joinedRows own t.entity.columnCount rows⟩) = .ok target eager ∧
      loadLazily r a.name (w.answering ⟨others, rows⟩) = lazy ∧
      target = rows.head?.bind (fun row => (⟨t.entity, row⟩ : EntityColumns).key?.bind eager.identity.get?) ∧
      (LoadsAlike (.ok target eager) lazy ↔ rows.length ≤ 1 ∧ t.entity.table ≠ "") ∧
      (rows.length ≤ 1 → t.entity.table ≠ "" →
        ∃ after, lazy = .ok target after ∧ after.heap = eager.heap ∧ after.identity = eager.identity) ∧
      (1 < rows.length → t.entity.table ≠ "" → ∃ after, lazy = .error (.nonUniqueResult rows.length) after) := by
  obtain ⟨index, back, mappedBy, id, waits, present, typed⟩ := awaits.waits settled
  obtain ⟨items, k, reads⟩ := Hydration.readsEach (Registry.describes_of_describe awaits.leads) targets
    settled.describes
  have count := reads.length
  obtain ⟨eager, loaded, heap, identity⟩ := loadEagerly_run waits reads width keyed awaits.known fetches settled.active
    names
  refine ⟨items.head?, eager, _, loaded, rfl, by rw [identity]; exact reads.head?, ?_⟩
  -- The plan that resolving runs names the targets by their table, which the join does not.
  by_cases named : t.entity.table = ""
  case pos =>
    rw [loadLazily_unnamed waits named]
    exact ⟨iff_of_false nofun fun ⟨_, other⟩ => other named, fun _ other => absurd named other,
      fun _ other => absurd named other⟩
  case neg =>
    obtain ⟨plan, query, planned, compiled, layout⟩ := inversePlan_built settled.built
      (settled.owner_described awaits.known) awaits.listed waits.inverse awaits.leads named present typed w.dialect
    by_cases few : rows.length ≤ 1
    case pos =>
      obtain ⟨after, resolved, sameHeap, sameIdentity⟩ := loadLazily_run waits reads planned compiled layout
        settled.active others (count ▸ few)
      rw [resolved]
      exact ⟨iff_of_true (.loaded _ eager after) ⟨few, named⟩,
        fun _ _ => ⟨after, rfl, sameHeap.trans heap.symm, sameIdentity.trans identity.symm⟩,
        fun several => absurd few (Nat.not_le.mpr several)⟩
    case neg =>
      obtain ⟨after, refused⟩ := loadLazily_several waits reads planned compiled layout settled.active others
        (count ▸ Nat.not_le.mp few)
      rw [refused, count]
      exact ⟨iff_of_false nofun fun ⟨one, _⟩ => few one, fun one => absurd one few, fun _ _ => ⟨after, rfl⟩⟩

theorem loadsAlike_iff_badge : badgeWork.Settled badgeDefinitions ∧
    badgeWork.Awaits ⟨"Badge", .int 1⟩ ⟨0⟩ holderAssociation employeeEntity ∧
    holderPlan.Fetches badgeWork.registry badgeWork.dialect ⟨"badge", badgeEntity⟩ holderAssociation
      ⟨"employee", employeeEntity⟩ ∧
    (⟨employeeEntity, [.int 10, .int 1]⟩ : EntityColumns).Instantiates ∧ ∃ target eager after,
      loadEagerly holderPlan ⟨0⟩ "holder"
          (badgeWork.answering ⟨["id", "id", "badge_id"], joinedRows [.int 1] 2 [[.int 10, .int 1]]⟩) =
        .ok target eager ∧
      loadLazily ⟨0⟩ "holder" (badgeWork.answering ⟨["id", "badge_id"], [[.int 10, .int 1]]⟩) = .ok target after ∧
      after.heap = eager.heap := by
  obtain ⟨target, eager, lazy, loaded, resolved, _, _, alike, _⟩ := loadsAlike_iff badgeWork_settled badgeWork_awaits
    holderPlan_fetches (show [Value.int 1].length = badgeEntity.columnCount from rfl) rfl
    (List.forall_mem_singleton.mpr (instantiates_employee 10)) ["id", "id", "badge_id"] ["id", "badge_id"]
  obtain ⟨after, same, heap, _⟩ := alike (Nat.le_refl 1) (by decide)
  exact ⟨badgeWork_settled, badgeWork_awaits, holderPlan_fetches, instantiates_employee 10, target, eager, after, loaded,
    resolved.trans same, heap⟩

/-- Two employees with the badge. -/
def holderRows : List (List Value) := [[.int 10, .int 1], [.int 11, .int 1]]

/-- The join takes the first of two employees, and resolving refuses both. -/
theorem loadEagerly_first_of_two : badgeWork.Settled badgeDefinitions ∧
    badgeWork.Awaits ⟨"Badge", .int 1⟩ ⟨0⟩ holderAssociation employeeEntity ∧
    holderPlan.Fetches badgeWork.registry badgeWork.dialect ⟨"badge", badgeEntity⟩ holderAssociation
      ⟨"employee", employeeEntity⟩ ∧
    (∀ row ∈ holderRows, (⟨employeeEntity, row⟩ : EntityColumns).Instantiates) ∧
    (holderRows.map fun row => (⟨employeeEntity, row⟩ : EntityColumns).key?).Nodup ∧
    (∀ row ∈ holderRows, row[1]? = some (badgeWork.heap.get ⟨0⟩).id) ∧
    ¬LoadsAlike
      (loadEagerly holderPlan ⟨0⟩ "holder"
        (badgeWork.answering ⟨["id", "id", "badge_id"], joinedRows [.int 1] 2 holderRows⟩))
      (loadLazily ⟨0⟩ "holder" (badgeWork.answering ⟨["id", "badge_id"], holderRows⟩)) := by
  refine ⟨badgeWork_settled, badgeWork_awaits, holderPlan_fetches, ?_, by decide, by decide, fun alike => ?_⟩
  · exact List.forall_mem_cons.mpr ⟨instantiates_employee 10, List.forall_mem_singleton.mpr (instantiates_employee 11)⟩
  · have same := alike.isSome
    revert same
    decide +kernel

end Session

end EntityMapper
