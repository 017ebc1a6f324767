import EntityMapper.Session.Heap

namespace EntityMapper

/-- A primary key that can tell instances apart. -/
inductive KeyValue where
  | int (i : Int64)
  | text (s : String)
  | bool (b : Bool)
  deriving DecidableEq, Repr, Inhabited

/-- Neither null nor floating-point numbers identify an instance. -/
def KeyValue.ofValue : Value → Except Error KeyValue
  | .int i => .ok (int i)
  | .text s => .ok (text s)
  | .bool b => .ok (bool b)
  | other => .error (.invalidArgument (.unusableKey other))

/-- The identity of a row. -/
structure EntityKey where
  entity : String
  id : KeyValue
  deriving DecidableEq, Repr, Inhabited

def EntityKey.of (entity : String) (id : Value) : Except Error EntityKey := do
  let key ← KeyValue.ofValue id
  .ok ⟨entity, key⟩

def Instance.key (i : Instance) : Except Error EntityKey := EntityKey.of i.entity.name i.id

/-- The instances of one unit of work by identity, in the order of their registration. -/
structure IdentityMap where
  entries : List (EntityKey × Ref)
  deriving DecidableEq, Repr, Inhabited

namespace IdentityMap

def empty : IdentityMap := ⟨[]⟩

def get? (m : IdentityMap) (key : EntityKey) : Option Ref := m.entries.lookup key

def refs (m : IdentityMap) : List Ref := m.entries.map (·.2)

def size (m : IdentityMap) : Nat := m.entries.length

/-- Registers an instance under its primary key. An instance is registered once, and under a key there is one. -/
def register (h : Heap) (m : IdentityMap) (r : Ref) : Except Error (EntityKey × IdentityMap) := do
  let i := h.get r
  let key ← i.key
  match m.get? key with
  | some existing =>
    if existing = r then .ok (key, m) else .error (.invalidArgument (.occupiedKey i.entity.name i.id))
  | none => .ok (key, ⟨m.entries ++ [(key, r)]⟩)

/-- Whether this very instance is registered under its primary key. -/
def contains (h : Heap) (m : IdentityMap) (r : Ref) : Bool :=
  match (h.get r).key with
  | .ok key => m.get? key == some r
  | .error _ => false

/-- Takes an entry out, if there is one, and keeps the order of the others. -/
def remove (m : IdentityMap) (key : EntityKey) : Option Ref × IdentityMap :=
  (m.get? key, ⟨m.entries.filter (·.1 != key)⟩)

end IdentityMap

end EntityMapper
