import EntityMapper.Query.Plan
import EntityMapper.Conversion

namespace EntityMapper

def Expr.isNullLiteral : Expr → Bool
  | .literal .null => true
  | _ => false

/-- A comparison with null never holds, so null is refused before types are compared. -/
def checkOperands (operation : String) (left right : Expr) : Except Error Unit :=
  if left.isNullLiteral || right.isNullLiteral then .error (.invalidArgument (.nullOperand operation))
  else checkTypes operation left.dataType? right.dataType?

namespace Expr

/-- A plan as a scalar subquery. -/
def ofPlan (plan : Plan) : Except Error Expr := do
  let _ ← plan.scalarType
  .ok (.subquery plan)

def compare (left : Expr) (op : CompareOp) (right : Expr) : Except Error Predicate := do
  checkOperands op.name left right
  .ok (.compare left op right)

/-- The bounds are not compared with each other: an empty range matches nothing. -/
def between (expr low high : Expr) : Except Error Predicate := do
  checkOperands "between" expr low
  checkOperands "between" expr high
  .ok (.between expr low high)

def inValues (expr : Expr) (values : List Expr) (negated : Bool) : Except Error Predicate := do
  values.forM (checkOperands "in" expr)
  .ok (.inValues expr values negated)

def inPlan (expr : Expr) (plan : Plan) (negated : Bool) : Except Error Predicate := do
  let element ← plan.scalarType
  checkTypes "in" expr.dataType? element
  .ok (.inPlan expr plan negated)

def count (argument : Expr) (distinct : Bool) : Expr := .aggregate .count argument distinct

def max (argument : Expr) : Expr := .aggregate .max argument false

def min (argument : Expr) : Expr := .aggregate .min argument false

/-- Averages and sums are refused for arguments that are known not to be numbers. -/
def numericAggregate (function : AggregateFunction) (argument : Expr) : Except Error Expr :=
  match argument.dataType? with
  | some type =>
    if type.isNumeric then .ok (.aggregate function argument false)
    else .error (.typeMismatch function.name .float type)
  | none => .ok (.aggregate function argument false)

def avg (argument : Expr) : Except Error Expr := numericAggregate .avg argument

def sum (argument : Expr) : Except Error Expr := numericAggregate .sum argument

end Expr

/-- The number of rows in which an alias stands for an instance. -/
def Alias.count (a : Alias) : Expr := .aggregate .count (.path a.id) false

end EntityMapper
