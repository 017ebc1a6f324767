import EntityMapper.Conversion
import EntityMapper.Schema.Registry
import EntityMapper.Compile.Change

namespace EntityMapper

/-- The address of an instance. Instances are the same when their addresses are. -/
structure Ref where
  index : Nat
  deriving DecidableEq, Repr, Inhabited

/-- An association of an instance: not loaded, with the key it would be loaded by, or loaded. -/
inductive AssociationState where
  | deferred (key : Value)
  | one (target : Option Ref)
  | many (targets : List Ref)
  deriving DecidableEq, Repr, Inhabited

def AssociationState.isLoaded : AssociationState → Bool
  | deferred _ => false
  | one _ | many _ => true

/-- An instance of an entity: a value for each field, a state for each association, and the columns changed since a
unit of work knows it. -/
structure Instance where
  entity : Entity
  values : List Value
  states : List AssociationState
  managed : Bool
  dirty : List String
  deriving DecidableEq, Repr, Inhabited

namespace Instance

/-- An instance no store knows: every field is null, every association loaded and empty. -/
def new (e : Entity) : Instance :=
  { entity := e
    values := e.fields.map fun _ => .null
    states := e.associations.map fun a => if a.cardinality = .many then .many [] else .one none
    managed := false
    dirty := [] }

def valueAt (i : Instance) (index : Nat) : Value := i.values.getD index .null

def stateAt (i : Instance) (index : Nat) : AssociationState := i.states.getD index (.one none)

/-- The primary key, null until the instance is saved. -/
def id (i : Instance) : Value := i.valueAt i.entity.key

def value (i : Instance) (field : String) : Except Error Value := do
  let index ← i.entity.fieldIndex field
  .ok (i.valueAt index)

/-- A field as a program's type, nothing for null. -/
def read (i : Instance) (type : HostType) (field : String) : Except Error (Option Value) := do
  let value ← i.value field
  if value.isNull then .ok none
  else do
    let converted ← type.convert value
    .ok (some converted)

/-- Adds a column to the changed ones, where it is not among them, if a unit of work has to know. -/
def touch (i : Instance) (column : String) : Instance :=
  if i.managed && !i.dirty.contains column then { i with dirty := i.dirty ++ [column] } else i

/-- Gives a field a value of a type that compares with its own. The key of a managed instance stays as it is, and a
value equal to the old one is no change. -/
def set (i : Instance) (field : String) (value : Value) : Except Error Instance := do
  let index ← i.entity.fieldIndex field
  let declared := i.entity.fields.getD index default
  checkTypes s!"{i.entity.name}.{field}" (some declared.type) value.dataType?
  let coerced ← declared.type.coerce value
  if index = i.entity.key && i.managed then .error (.invalidArgument (.fixedKey i.entity.name))
  else if i.valueAt index == coerced then .ok i
  else .ok (touch { i with values := i.values.set index coerced } declared.column)

def state (i : Instance) (association : String) : Except Error AssociationState := do
  let index ← i.entity.associationIndex association
  .ok (i.stateAt index)

def isLoaded (i : Instance) (association : String) : Except Error Bool := do
  let state ← i.state association
  .ok state.isLoaded

/-- The instance of a loaded association to one. -/
def reference (i : Instance) (association : String) : Except Error (Option Ref) := do
  match ← i.state association with
  | .one target => .ok target
  | .many _ => .error (.invalidArgument (.isCollection i.entity.name association))
  | .deferred _ => .error (.invalidArgument (.notLoaded i.entity.name association))

/-- The instances of a loaded association to many. -/
def collection (i : Instance) (association : String) : Except Error (List Ref) := do
  match ← i.state association with
  | .many targets => .ok targets
  | .one _ => .error (.invalidArgument (.notCollection i.entity.name association))
  | .deferred _ => .error (.invalidArgument (.notLoaded i.entity.name association))

def isDirty (i : Instance) : Bool := !i.dirty.isEmpty

def withState (i : Instance) (index : Nat) (state : AssociationState) : Instance :=
  { i with states := i.states.set index state }

/-- Loads an association unless it is loaded. -/
def fill (i : Instance) (index : Nat) (loaded : AssociationState) : Instance :=
  if (i.stateAt index).isLoaded then i else i.withState index loaded

/-- Adds an instance to a loaded collection unless it is in it. -/
def addItem (i : Instance) (index : Nat) (item : Ref) : Instance :=
  match i.stateAt index with
  | .many items => if item ∈ items then i else i.withState index (.many (items ++ [item]))
  | _ => i

/-- Gives the instance the key that the store made for it. -/
def assignKey (i : Instance) (key : Value) : Except Error Instance := do
  let key ← i.entity.primaryKey.type.coerce key
  .ok { i with values := i.values.set i.entity.key key }

def manage (i : Instance) : Instance := { i with managed := true, dirty := [] }

def detach (i : Instance) : Instance := { i with managed := false, dirty := [] }

/-- The association on this side that an owning association of another entity is seen through. -/
def inverseIndex? (i : Instance) (owning : Association) : Option Nat :=
  i.entity.associations.findIdx? fun a => a.mappedBy == some owning.name && a.target == owning.owner

/-- The inverse side, where it is loaded, takes an instance that now refers to this one. -/
def link (i : Instance) (owning : Association) (owner : Ref) : Instance :=
  match i.inverseIndex? owning with
  | none => i
  | some index =>
    match i.stateAt index with
    | .many _ => i.addItem index owner
    | .one _ => i.withState index (.one (some owner))
    | .deferred _ => i

/-- The inverse side, where it is loaded, loses an instance that no longer refers to this one. -/
def unlink (i : Instance) (owning : Association) (owner : Ref) : Instance :=
  match i.inverseIndex? owning with
  | none => i
  | some index =>
    match i.stateAt index with
    | .many items => i.withState index (.many (items.filter (· != owner)))
    | .one current => if current = some owner then i.withState index (.one none) else i
    | .deferred _ => i

end Instance

end EntityMapper
