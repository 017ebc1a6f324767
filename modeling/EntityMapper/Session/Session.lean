import EntityMapper.Compile.Query
import EntityMapper.Query.Builder
import EntityMapper.Session.Hydration
import EntityMapper.Session.UnitOfWork
import EntityMapper.Settings

namespace EntityMapper

/-- A store's dialect and the settings that sessions on it are opened with. -/
structure Connection where
  dialect : Dialect
  settings : Settings
  deriving DecidableEq, Repr, Inhabited

/-- A unit of work with the instances that it has read or saved. -/
structure Session where
  registry : Registry
  dialect : Dialect
  flushOnCommit : Bool
  identity : IdentityMap
  unit : UnitOfWork
  deriving DecidableEq, Repr, Inhabited

/-- A session at work on the instances of a program and on a store, which other sessions share. -/
structure Work extends Session where
  heap : Heap
  store : Store
  deriving DecidableEq, Repr, Inhabited

/-- What a session does. Its effects stay when it fails. -/
abbrev SessionM := EStateM Error Work

namespace Connection

/-- Runs a statement outside of any transaction. -/
def execute (s : Store) (statement : Statement) : Except Error RowSet × Store := s.call (.direct statement)

/-- Opens a session, which begins a transaction. -/
def begin (c : Connection) (registry : Registry) (s : Store) : Except Error Session × Store :=
  match UnitOfWork.new.begin s with
  | (.ok _, unit, s) =>
    (.ok { registry, dialect := c.dialect, flushOnCommit := c.settings.flushOnCommit, identity := .empty, unit }, s)
  | (.error e, _, s) => (.error e, s)

end Connection

namespace Session

def check {α : Type} : Except Error α → SessionM α
  | .ok a => pure a
  | .error e => throw e

/-- A step of the unit of work on the store. -/
def onUnit {α : Type} (step : UnitOfWork → Store → Except Error α × UnitOfWork × Store) : SessionM α := do
  let w ← get
  match step w.unit w.store with
  | (answer, unit, store) => do
    set { w with unit, store }
    check answer

/-- Runs a statement inside the transaction. -/
def run (statement : Statement) : SessionM RowSet := onUnit fun u s => u.execute s statement

/-- An instance as it is now. -/
def load (r : Ref) : SessionM Instance := do
  let w ← get
  pure (w.heap.get r)

def modifyInstance (r : Ref) (change : Instance → Instance) : SessionM Unit :=
  modify fun w => { w with heap := w.heap.modify r change }

/-- A new instance, known to no unit of work. -/
def instantiate (entity : String) : SessionM Ref := do
  let w ← get
  let e ← check (w.registry.describe entity)
  let (r, heap) := w.heap.allocate (.new e)
  set { w with heap }
  pure r

/-- Registers an instance under its primary key. -/
def register (r : Ref) : SessionM Unit := do
  let w ← get
  let (_, identity) ← check (w.identity.register w.heap r)
  set { w with identity }

/-- Instances that are registered belong to no unit of work any more. -/
def detachAll : SessionM Unit :=
  modify fun w =>
    { w with heap := w.identity.refs.foldl (fun h r => h.modify r Instance.detach) w.heap, identity := .empty }

end Session

end EntityMapper
