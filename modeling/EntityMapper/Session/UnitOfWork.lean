import EntityMapper.Session.Store

namespace EntityMapper

/-- A unit of work: its stage, and whether it has a transaction of the store in hand. -/
structure UnitOfWork where
  state : TransactionState
  live : Bool
  deriving DecidableEq, Repr, Inhabited

namespace UnitOfWork

def new : UnitOfWork := ⟨.notStarted, false⟩

def isActive (u : UnitOfWork) : Bool := u.state == .active

/-- Statements and the end of a transaction need an active unit with its transaction. -/
def checkActive (u : UnitOfWork) (action : String) : Except Error Unit :=
  if u.isActive && u.live then .ok () else .error (.transaction (.notActive action u.state))

def begin (u : UnitOfWork) (s : Store) : Except Error Unit × UnitOfWork × Store :=
  if u.state != .notStarted then (.error (.transaction (.alreadyBegun u.state)), u, s)
  else
    match s.call .begin with
    | (.ok _, s) => (.ok (), ⟨.active, true⟩, s)
    | (.error e, s) => (.error e, u, s)

def execute (u : UnitOfWork) (s : Store) (statement : Statement) : Except Error RowSet × UnitOfWork × Store :=
  match u.checkActive "execute" with
  | .error e => (.error e, u, s)
  | .ok _ =>
    match s.call (.statement statement) with
    | (answer, s) => (answer, u, s)

/-- The transaction is given away with the call that ends it, also when the call fails. -/
def finish (u : UnitOfWork) (s : Store) (action : String) (call : Call) (ended : TransactionState) :
    Except Error Unit × UnitOfWork × Store :=
  match u.checkActive action with
  | .error e => (.error e, u, s)
  | .ok _ =>
    match s.call call with
    | (.ok _, s) => (.ok (), ⟨ended, false⟩, s)
    | (.error e, s) => (.error e, { u with live := false }, s)

def commit (u : UnitOfWork) (s : Store) : Except Error Unit × UnitOfWork × Store :=
  u.finish s "commit" .commit .committed

def rollback (u : UnitOfWork) (s : Store) : Except Error Unit × UnitOfWork × Store :=
  u.finish s "roll back" .rollback .rolledBack

/-- A unit of work that goes away drops the transaction it has in hand. -/
def drop (u : UnitOfWork) (s : Store) : Store := if u.live then s.note .dropped else s

end UnitOfWork

end EntityMapper
