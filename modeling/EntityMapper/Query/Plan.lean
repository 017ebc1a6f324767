import EntityMapper.Query.Path

namespace EntityMapper

inductive AggregateFunction where
  | count
  | avg
  | max
  | min
  | sum
  deriving DecidableEq, Repr, Inhabited

inductive CompareOp where
  | eq
  | ne
  | gt
  | ge
  | lt
  | le
  deriving DecidableEq, Repr, Inhabited

inductive JoinKind where
  | inner
  | left
  deriving DecidableEq, Repr, Inhabited

inductive Direction where
  | ascending
  | descending
  deriving DecidableEq, Repr, Inhabited

inductive NullPlacement where
  | first
  | last
  deriving DecidableEq, Repr, Inhabited

mutual

/-- An expression with one value per row. A subquery is meant to project one scalar, which `Expr.ofPlan` checks. -/
inductive Expr where
  | path (path : Path)
  | literal (value : Value)
  | aggregate (function : AggregateFunction) (argument : Expr) (distinct : Bool)
  | subquery (plan : Plan)

/-- A condition. Each conjunction and disjunction is a group of its own, so the tree is the order of evaluation. -/
inductive Predicate where
  | compare (left : Expr) (op : CompareOp) (right : Expr)
  | between (expr low high : Expr)
  | inValues (expr : Expr) (values : List Expr) (negated : Bool)
  | inPlan (expr : Expr) (plan : Plan) (negated : Bool)
  | isNull (expr : Expr) (negated : Bool)
  | exists (plan : Plan) (negated : Bool)
  | and (items : List Predicate)
  | or (items : List Predicate)
  | not (inner : Predicate)

/-- An item of a select list: an expression, or every column of an entity. -/
inductive Projection where
  | expr (expr : Expr)
  | entity (source : Alias)

/-- A join along an association, or without one, in which case the condition is all that relates the two sides. -/
structure Join where
  kind : JoinKind
  target : Alias
  association : Option AssociationPath
  condition : Option Predicate
  fetch : Bool

structure SortItem where
  expr : Expr
  direction : Direction
  nulls : Option NullPlacement

/-- The description of a query before it is compiled. -/
structure Plan where
  projections : List Projection
  sources : List Alias
  joins : List Join
  filters : List Predicate
  groups : List Expr
  havings : List Predicate
  orderings : List SortItem
  offset : Option Nat
  limit : Option Nat
  distinct : Bool

end

instance : Inhabited Expr := ⟨.literal .null⟩
instance : Inhabited Plan := ⟨⟨[], [], [], [], [], [], [], none, none, false⟩⟩

namespace AggregateFunction

def keyword : AggregateFunction → String
  | count => "COUNT"
  | avg => "AVG"
  | max => "MAX"
  | min => "MIN"
  | sum => "SUM"

def name : AggregateFunction → String
  | count => "count"
  | avg => "avg"
  | max => "max"
  | min => "min"
  | sum => "sum"

end AggregateFunction

namespace CompareOp

def symbol : CompareOp → String
  | eq => "="
  | ne => "<>"
  | gt => ">"
  | ge => ">="
  | lt => "<"
  | le => "<="

def name : CompareOp → String
  | eq => "eq"
  | ne => "ne"
  | gt => "gt"
  | ge => "goe"
  | lt => "lt"
  | le => "loe"

end CompareOp

def JoinKind.keyword : JoinKind → String
  | inner => "INNER"
  | left => "LEFT"

def Direction.keyword : Direction → String
  | ascending => "ASC"
  | descending => "DESC"

def NullPlacement.keyword : NullPlacement → String
  | first => "FIRST"
  | last => "LAST"

/-- The type of an expression; null has none. -/
def Expr.dataType? : Expr → Option DataType
  | .path p => some p.type
  | .literal v => v.dataType?
  | .aggregate .count _ _ => some .integer
  | .aggregate .avg _ _ => some .float
  | .aggregate _ argument _ => argument.dataType?
  | .subquery ⟨[.expr projected], _, _, _, _, _, _, _, _, _⟩ => projected.dataType?
  | .subquery _ => none
termination_by structural e => e

def Expr.isAggregate : Expr → Bool
  | .aggregate .. => true
  | _ => false

def Projection.expr? : Projection → Option Expr
  | .expr e => some e
  | .entity _ => none

def Projection.source? : Projection → Option Alias
  | .expr _ => none
  | .entity a => some a

namespace Plan

def empty : Plan := ⟨[], [], [], [], [], [], [], none, none, false⟩

/-- The type of the one scalar a plan yields as a subquery. -/
def scalarType (p : Plan) : Except Error (Option DataType) :=
  match p.projections with
  | [.expr projected] => .ok projected.dataType?
  | _ => .error (.invalidPlan .notScalar)

end Plan

end EntityMapper
