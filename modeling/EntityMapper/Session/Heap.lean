import EntityMapper.Session.Instance

namespace EntityMapper

/-- All instances of a program. Each address is given to one of them; any other reads as a blank instance. -/
structure Heap where
  instances : Array Instance
  deriving DecidableEq, Repr, Inhabited

namespace Heap

def empty : Heap := ⟨#[]⟩

def get (h : Heap) (r : Ref) : Instance := h.instances.getD r.index default

def modify (h : Heap) (r : Ref) (change : Instance → Instance) : Heap := ⟨h.instances.modify r.index change⟩

/-- A new instance and its address. -/
def allocate (h : Heap) (i : Instance) : Ref × Heap := (⟨h.instances.size⟩, ⟨h.instances.push i⟩)

def set (h : Heap) (r : Ref) (field : String) (value : Value) : Except Error Heap := do
  let changed ← (h.get r).set field value
  .ok (h.modify r fun _ => changed)

/-- Points an owning association at another instance, or at none. The loaded inverse sides of the old and of the new
target follow. -/
def setReference (h : Heap) (r : Ref) (association : String) (target : Option Ref) : Except Error Heap := do
  let i := h.get r
  let index ← i.entity.associationIndex association
  let owning := i.entity.associations.getD index default
  if !owning.isOwning then .error (.invalidArgument (.inverseSide i.entity.name association))
  else
    match target.filter fun t => (h.get t).entity.name != owning.target with
    | some t =>
      .error (.invalidArgument (.wrongTarget i.entity.name association owning.target (h.get t).entity.name))
    | none =>
      let changed := h.modify r fun i => (i.touch owning.ownerColumn).withState index (.one target)
      let unlinked := match i.stateAt index with
        | .one (some old) => changed.modify old (·.unlink owning r)
        | _ => changed
      match target with
      | some t => .ok (unlinked.modify t (·.link owning r))
      | none => .ok unlinked

/-- The foreign key an association stores. An instance that is referred to has to have a key. -/
def foreignKey (h : Heap) (i : Instance) (association : Association) : AssociationState → Except Error Value
  | .deferred key => .ok key
  | .one none => .ok .null
  | .many _ => .ok .null
  | .one (some target) =>
    let id := (h.get target).id
    if id.isNull then
      .error (.invalidArgument (.unsavedTarget i.entity.name association.name (h.get target).entity.name))
    else .ok id

def foreignKeyAssignments (h : Heap) (i : Instance) : List (Association × AssociationState) → Except Error Assignments
  | [] => .ok []
  | (association, state) :: rest =>
    if association.isOwning then do
      let key ← h.foreignKey i association state
      let others ← h.foreignKeyAssignments i rest
      .ok ((association.ownerColumn, key) :: others)
    else h.foreignKeyAssignments i rest

/-- The fields of an instance as columns. A primary key that is null is left to the store. -/
def fieldAssignments (i : Instance) : Assignments :=
  ((i.entity.fields.zip i.values).zipIdx.filter fun ((_, value), index) =>
    !(index == i.entity.key.val && value.isNull)).map fun ((field, value), _) => (field.column, value)

/-- What the insertion of an instance writes: its fields, then its foreign keys. -/
def insertAssignments (h : Heap) (i : Instance) : Except Error Assignments := do
  let keys ← h.foreignKeyAssignments i (i.entity.associations.zip i.states)
  .ok (fieldAssignments i ++ keys)

/-- The values of changed columns. A column is looked up among the fields first. The key of a target is read while the
instance is held for its changes, so that an instance that points at itself would wait for itself. That case is left
aside: here its own key is what it gets. -/
def changesOf (h : Heap) (i : Instance) : List String → Except Error Assignments
  | [] => .ok []
  | column :: rest =>
    match i.entity.fields.findIdx? (·.column == column) with
    | some index => do
      let others ← h.changesOf i rest
      .ok ((column, i.valueAt index) :: others)
    | none =>
      match i.entity.associations.findIdx? fun a => a.isOwning && a.ownerColumn == column with
      | some index => do
        let key ← h.foreignKey i (i.entity.associations.getD index default) (i.stateAt index)
        let others ← h.changesOf i rest
        .ok ((column, key) :: others)
      | none => h.changesOf i rest

/-- The changed columns of an instance with their values. They count as written from then on. This speaks of instances
whose changed associations do not point at themselves. -/
def takeChanges (h : Heap) (r : Ref) : Except Error Assignments × Heap :=
  let i := h.get r
  (h.changesOf i i.dirty, h.modify r fun i => { i with dirty := [] })

end Heap

end EntityMapper
