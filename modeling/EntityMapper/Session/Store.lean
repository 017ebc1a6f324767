import EntityMapper.Sql.Writer
import EntityMapper.Error

namespace EntityMapper

/-- The rows of a statement, each with its values in the order of the columns. -/
structure RowSet where
  columns : List String
  rows : List (List Value)
  deriving DecidableEq, Repr, Inhabited

namespace RowSet

def empty : RowSet := ⟨[], []⟩

def firstValue? (s : RowSet) : Option Value := s.rows.head?.bind (·.head?)

end RowSet

/-- What a store answers to a call. -/
inductive Reply where
  | rows (rows : RowSet)
  | failure (part : StorePart) (text : String)
  deriving DecidableEq, Repr, Inhabited

/-- What reaches a store: the steps of a transaction, and statements inside and outside of one. A transaction that is
dropped is neither committed nor rolled back by its owner. -/
inductive Call where
  | begin
  | commit
  | rollback
  | dropped
  | statement (statement : Statement)
  | direct (statement : Statement)
  deriving DecidableEq, Repr, Inhabited

/-- A store seen from outside: the answers it is going to give and the calls it has received. -/
structure Store where
  replies : List Reply
  calls : List Call
  deriving DecidableEq, Repr, Inhabited

namespace Store

def note (s : Store) (call : Call) : Store := { s with calls := s.calls ++ [call] }

/-- A call and its answer; without an answer left, no rows. -/
def call (s : Store) (call : Call) : Except Error RowSet × Store :=
  let noted := s.note call
  match s.replies with
  | [] => (.ok .empty, noted)
  | .rows rows :: rest => (.ok rows, { noted with replies := rest })
  | .failure part text :: rest => (.error (.execution (.store part text)), { noted with replies := rest })

end Store

end EntityMapper
