import EntityMapper.Query.Predicate

namespace EntityMapper.Plan

/-- Replaces the select list. -/
def select (p : Plan) (projections : List Projection) : Plan := { p with projections }

/-- Adds sources, which are combined with each other in every way. -/
def addSources (p : Plan) (sources : List Alias) : Plan := { p with sources := p.sources ++ sources }

/-- The plan that reads the instances of an entity. -/
def ofEntity (a : Alias) : Plan := (empty.select [.entity a]).addSources [a]

def join (p : Plan) (kind : JoinKind) (association : AssociationPath) (target : Alias) : Plan :=
  { p with joins := p.joins ++ [⟨kind, target, some association, none, false⟩] }

def joinUnrelated (p : Plan) (kind : JoinKind) (target : Alias) : Plan :=
  { p with joins := p.joins ++ [⟨kind, target, none, none, false⟩] }

/-- Changes the join made last, which the named step needs. -/
def changeLastJoin (p : Plan) (step : String) (change : Join → Join) : Except Error Plan :=
  match p.joins.getLast? with
  | none => .error (.invalidPlan (.noJoin step))
  | some last => .ok { p with joins := p.joins.dropLast ++ [change last] }

/-- Adds a condition to the join made last. -/
def on (p : Plan) (condition : Predicate) : Except Error Plan :=
  p.changeLastJoin "on" fun j =>
    { j with condition := some (j.condition.elim condition (·.conjoin condition)) }

/-- The join made last also loads the association it follows. -/
def fetchJoin (p : Plan) : Except Error Plan :=
  p.changeLastJoin "fetch_join" fun j => { j with fetch := true }

/-- Conditions add up; no condition adds nothing. -/
def filter (p : Plan) (condition : Option Predicate) : Plan := { p with filters := p.filters ++ condition.toList }

def filterAll (p : Plan) (conditions : List Predicate) : Plan := { p with filters := p.filters ++ conditions }

def groupBy (p : Plan) (expr : Expr) : Plan := { p with groups := p.groups ++ [expr] }

def having (p : Plan) (condition : Predicate) : Plan := { p with havings := p.havings ++ [condition] }

def orderBy (p : Plan) (ordering : SortItem) : Plan := { p with orderings := p.orderings ++ [ordering] }

def distinctly (p : Plan) : Plan := { p with distinct := true }

/-- Paging bounds are given as integers and must not be negative. -/
def bound (name : String) (given : Int64) : Except Error Nat :=
  if given.toInt < 0 then .error (.invalidArgument (.negative name given)) else .ok given.toInt.toNat

def withOffset (p : Plan) (offset : Int64) : Except Error Plan := do
  let n ← bound "offset" offset
  .ok { p with offset := some n }

def withLimit (p : Plan) (limit : Int64) : Except Error Plan := do
  let n ← bound "limit" limit
  .ok { p with limit := some n }

def unpaged (p : Plan) : Plan := { p with offset := none, limit := none }

end EntityMapper.Plan
