import EntityMapper.Schema.Entity
import EntityMapper.Sql.Render

namespace EntityMapper

/-- Columns and the values they are given. -/
abbrev Assignments := List (String × Value)

/-- A row without given columns takes the defaults of its table. -/
def insertTokens (d : Dialect) (e : Entity) (assignments : Assignments) (returning : Bool) : List Token :=
  words ["INSERT", "INTO"] ++ [.space, .identifier e.table, .space] ++
    (match assignments with
    | [] =>
      if d = .mysql then [.symbol "(", .symbol ")"] ++ wordBetween "VALUES" ++ [.symbol "(", .symbol ")"]
      else [.word "DEFAULT", .space, .word "VALUES"]
    | _ =>
      parenthesized (joined comma (assignments.map fun (column, _) => [.identifier column])) ++ wordBetween "VALUES" ++
        parenthesized (joined comma (assignments.map fun (_, value) => [.value value]))) ++
    (if returning && d.returnsKeys then words ["RETURNING"] ++ [.space, .identifier e.primaryKey.column] else [])

/-- The statement that inserts a row and, where asked for and possible, returns its key. -/
def compileInsert (d : Dialect) (e : Entity) (assignments : Assignments) (returning : Bool) : Statement :=
  .ofTokens d (insertTokens d e assignments returning)

def assignmentTokens (column : String) (value : Value) : List Token :=
  [.identifier column, .space, .symbol "=", .space, .value value]

def updateTokens (e : Entity) (assignments : Assignments) (id : Value) : List Token :=
  words ["UPDATE"] ++ [.space, .identifier e.table] ++ words ["SET"] ++ [.space] ++
    joined comma (assignments.map fun (column, value) => assignmentTokens column value) ++ words ["WHERE"] ++
    [.space] ++ assignmentTokens e.primaryKey.column id

/-- The statement that changes columns of the row with a primary key. There has to be a column to change. -/
def compileUpdate (d : Dialect) (e : Entity) (assignments : Assignments) (id : Value) : Except Error Statement :=
  if assignments.isEmpty then .error (.invalidArgument (.emptyUpdate e.name))
  else .ok (.ofTokens d (updateTokens e assignments id))

end EntityMapper
