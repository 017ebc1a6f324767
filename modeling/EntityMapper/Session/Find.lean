import EntityMapper.Session.Fetch

namespace EntityMapper.Session

/-- A key as a value of the primary key's type. -/
def keyOf (e : Entity) (entity : String) (id : Value) : Except Error Value := do
  checkTypes s!"find {entity}" (some e.primaryKey.type) id.dataType?
  e.primaryKey.type.coerce id

/-- The plan that reads the instance with a primary key. -/
def findPlan (registry : Registry) (e : Entity) (entity : String) (id : Value) : Except Error Plan := do
  let source ← registry.entityAs entity e.table
  let condition ← Expr.compare (.path source.id) .eq (.literal id)
  .ok ((Plan.ofEntity source).filter (some condition))

/-- The instance with a primary key. The store is asked only if it is not registered. -/
def find (entity : String) (id : Value) : SessionM (Option Ref) := do
  let w ← get
  let e ← check (w.registry.describe entity)
  let id ← check (keyOf e entity id)
  let key ← check (EntityKey.of entity id)
  match w.identity.get? key with
  | some existing => pure (some existing)
  | none => do
    let plan ← check (findPlan w.registry e entity id)
    fetchOne Record.toEntity plan

/-- The plan that reads the instances whose foreign key is a given key, in the order of their own keys. -/
def inversePlan (registry : Registry) (target : Entity) (entity mappedBy : String) (key : Value) :
    Except Error Plan := do
  let source ← registry.entityAs entity target.table
  let foreignKey ← source.foreignKey registry mappedBy
  let condition ← Expr.compare (.path foreignKey) .eq (.literal key)
  .ok (((Plan.ofEntity source).filter (some condition)).orderBy ⟨.path source.id, .ascending, none⟩)

/-- An owning association is loaded by the key of its target. -/
def loadOwning (a : Association) (key : Value) : SessionM AssociationState := do
  let target ← find a.target key
  pure (.one target)

/-- An inverse association is loaded by one query for the instances that refer to its owner. They point back. -/
def loadInverse (r : Ref) (a : Association) (mappedBy : String) (key : Value) : SessionM AssociationState := do
  let w ← get
  let target ← check (w.registry.describe a.target)
  let plan ← check (inversePlan w.registry target a.target mappedBy key)
  let items ← fetch Record.toEntity plan
  let back ← check (target.associationIndex mappedBy)
  items.forM fun item => modifyInstance item (·.fill back (.one (some r)))
  match a.cardinality with
  | .many => pure (.many items)
  | .one => if 1 < items.length then throw (.nonUniqueResult items.length) else pure (.one items.head?)

/-- Loads an association that is deferred. -/
def resolve (r : Ref) (association : String) : SessionM AssociationState := do
  let i ← load r
  let index ← check (i.entity.associationIndex association)
  match i.stateAt index with
  | .deferred key => do
    let a := i.entity.associations.getD index default
    let loaded ← match a.mappedBy with
      | none => loadOwning a key
      | some mappedBy => loadInverse r a mappedBy key
    modifyInstance r (·.fill index loaded)
    let now ← load r
    pure (now.stateAt index)
  | loaded => pure loaded

end EntityMapper.Session
