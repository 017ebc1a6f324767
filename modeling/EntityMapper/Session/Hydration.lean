import EntityMapper.Compile.Layout
import EntityMapper.Session.Identity
import EntityMapper.Session.Record

namespace EntityMapper

/-- The rows of one execution on their way to records. New instances are staged and registered after the last row.
Collections that this execution has started are the only ones it adds to. -/
structure Hydration where
  heap : Heap
  identity : IdentityMap
  staged : List (EntityKey × Ref)
  started : List (Ref × Nat)

abbrev HydrationM := EStateM Error Hydration

namespace Hydration

def check {σ α : Type} : Except Error α → EStateM Error σ α
  | .ok a => pure a
  | .error e => throw e

/-- Values read from the store, each brought to the type of its field. -/
def fieldValues : List Field → List Value → Except Error (List Value)
  | f :: fields, v :: values => do
    let coerced ← f.type.coerce v
    let others ← fieldValues fields values
    .ok (coerced :: others)
  | _, _ => .ok []

/-- The state of an association that a row gives: deferred with the foreign key or, on the inverse side, with the
primary key; an empty foreign key loads nothing. -/
def stateOf (e : Entity) (id : Value) (columns : List Value) (a : Association) : Except Error AssociationState :=
  if !a.isOwning then .ok (.deferred id)
  else do
    let raw := ((e.foreignKeyOffset? a.name).bind (columns[·]?)).getD .null
    let key ← a.keyType.coerce raw
    .ok (if key.isNull then .one none else .deferred key)

def statesOf (e : Entity) (id : Value) (columns : List Value) : List Association → Except Error (List AssociationState)
  | [] => .ok []
  | a :: rest => do
    let state ← stateOf e id columns a
    let others ← statesOf e id columns rest
    .ok (state :: others)

/-- The instance that the selected columns of an entity describe, as the store has it. -/
def instanceOf (e : Entity) (id : Value) (columns : List Value) : Except Error Instance := do
  let values ← fieldValues e.fields columns
  let states ← statesOf e id columns e.associations
  .ok { entity := e, values, states, managed := true, dirty := [] }

def modifyInstance (r : Ref) (change : Instance → Instance) : HydrationM Unit :=
  modify fun h => { h with heap := h.heap.modify r change }

/-- Allocates a new instance and stages it under its key. -/
def stage (key : EntityKey) (i : Instance) : HydrationM Ref :=
  modifyGet fun h =>
    let (r, heap) := h.heap.allocate i
    (r, { h with heap, staged := h.staged ++ [(key, r)] })

/-- The instance of a row: the registered one, the staged one, or a new one; none without a primary key. -/
def entity (e : Entity) (columns : List Value) : HydrationM (Option Ref) := do
  let id ← check (e.primaryKey.type.coerce (columns.getD e.key .null))
  if id.isNull then pure none
  else do
    let key ← check (EntityKey.of e.name id)
    let h ← get
    match (h.identity.get? key).or (h.staged.lookup key) with
    | some known => pure (some known)
    | none => do
      let i ← check (instanceOf e id columns)
      let r ← stage key i
      pure (some r)

/-- Whether this execution adds to a collection. It starts the ones that are not loaded and leaves others alone. -/
def startCollection (owner : Ref) (index : Nat) : HydrationM Bool := do
  let h ← get
  if h.started.contains (owner, index) then pure true
  else if ((h.heap.get owner).stateAt index).isLoaded then pure false
  else do
    set { h with started := (owner, index) :: h.started }
    modifyInstance owner (·.fill index (.many []))
    pure true

/-- The fetched side of an inverse association points back at its owner, unless it is loaded. -/
def pointBack (owner : Ref) (a : Association) (target : Option Ref) : HydrationM Unit :=
  match target, a.mappedBy with
  | some t, some mappedBy => do
    let h ← get
    let back ← check ((h.heap.get t).entity.associationIndex mappedBy)
    modifyInstance t (·.fill back (.one (some owner)))
  | _, _ => pure ()

/-- Loads a fetched association of its owner, or the next instance of one. -/
def attach (owner : Ref) (a : Association) (target : Option Ref) : HydrationM Unit := do
  let h ← get
  let index ← check ((h.heap.get owner).entity.associationIndex a.name)
  match a.cardinality with
  | .one => do
    modifyInstance owner (·.fill index (.one target))
    pointBack owner a target
  | .many => do
    let started ← startCollection owner index
    if started then do
      target.forM fun item => modifyInstance owner (·.addItem index item)
      pointBack owner a target
    else pure ()

/-- The instances of a row by alias, the latest first. -/
abbrev Found := List (String × Option Ref)

def cells (row : List Value) : List LayoutItem → Found → HydrationM (List Cell × Found)
  | [], found => pure ([], found)
  | item :: rest, found => do
    match item.kind with
    | .scalar type => do
      let raw := row.getD item.offset .null
      let v ← check (type.elim (.ok raw) (·.coerce raw))
      let (others, found) ← cells row rest found
      pure (.value v :: others, found)
    | .entity e => do
      let r ← entity e ((row.drop item.offset).take item.width)
      let named := item.projection.source?.elim found fun a => (a.name, r) :: found
      let (others, found) ← cells row rest named
      pure (.entity r :: others, found)

def fetches (row : List Value) : List FetchBinding → Found → HydrationM Unit
  | [], _ => pure ()
  | b :: rest, found => do
    let target ← entity b.target.entity ((row.drop b.offset).take b.width)
    match found.lookup b.owner with
    | some (some owner) => attach owner b.association target
    | _ => pure ()
    fetches row rest ((b.target.name, target) :: found)

/-- A row has all columns of the layout. -/
def record (layout : Layout) (row : List Value) : HydrationM Record := do
  if row.length < layout.width then throw (.execution (.shortRow row.length layout.width))
  else do
    let (items, found) ← cells row layout.items []
    fetches row layout.fetches found
    pure (match layout.shape with
      | .tuple => .tuple ⟨layout.items.map (·.projection), items⟩
      | .scalar | .entity => .cell (items.getLast?.getD (.value .null)))

def recordsOf (layout : Layout) : List (List Value) → HydrationM (List Record)
  | [] => pure []
  | row :: rest => do
    let r ← record layout row
    let others ← recordsOf layout rest
    pure (r :: others)

def registerAll : List (EntityKey × Ref) → HydrationM Unit
  | [] => pure ()
  | (_, r) :: rest => do
    let h ← get
    let (_, identity) ← check (h.identity.register h.heap r)
    set { h with identity }
    registerAll rest

/-- All rows as records; then the staged instances are registered. -/
def records (layout : Layout) (rows : List (List Value)) : HydrationM (List Record) := do
  let found ← recordsOf layout rows
  let h ← get
  registerAll h.staged
  pure found

end Hydration

end EntityMapper
