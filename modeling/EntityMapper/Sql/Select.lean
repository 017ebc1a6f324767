import EntityMapper.Query.Plan
import EntityMapper.Sql.Writer

namespace EntityMapper

/-- A join made for an association that a path follows and no join of the plan covers. -/
structure GeneratedJoin where
  owner : String
  association : Association
  target : Alias
  deriving DecidableEq, Repr, Inhabited

/-- An association that is loaded together with its owner. -/
structure FetchJoin where
  owner : String
  association : Association
  target : Alias
  deriving DecidableEq, Repr, Inhabited

mutual

/-- An expression with its paths resolved to columns of aliases. -/
inductive Term where
  | column (owner : String) (path : Path)
  | literal (value : Value)
  | aggregate (function : AggregateFunction) (argument : Term) (distinct : Bool)
  | subquery (select : Select)

/-- A condition over resolved terms. Membership in an empty list is a constant. -/
inductive Condition where
  | compare (left : Term) (op : CompareOp) (right : Term)
  | between (term low high : Term)
  | constant (truth : Bool)
  | inValues (term : Term) (values : List Term) (negated : Bool)
  | inSelect (term : Term) (select : Select) (negated : Bool)
  | isNull (term : Term) (negated : Bool)
  | exists (select : Select) (negated : Bool)
  | and (items : List Condition)
  | or (items : List Condition)
  | not (inner : Condition)

/-- An item of a resolved select list. -/
inductive Output where
  | term (term : Term)
  | entity (source : Alias)

/-- A join of the plan. One along an association names its owner's alias. -/
structure JoinClause where
  kind : JoinKind
  target : Alias
  link : Option (String × Association)
  condition : Option Condition

structure SortKey where
  term : Term
  direction : Direction
  nulls : Option NullPlacement

/-- A query whose names are resolved, the same for every dialect. -/
structure Select where
  distinct : Bool
  outputs : List Output
  fetches : List FetchJoin
  sources : List Alias
  joins : List JoinClause
  generated : List GeneratedJoin
  filters : List Condition
  groups : List Term
  havings : List Condition
  orderings : List SortKey
  limit : Option Nat
  offset : Option Nat

end

instance : Inhabited Term := ⟨.literal .null⟩
instance : Inhabited Select := ⟨⟨false, [], [], [], [], [], [], [], [], [], none, none⟩⟩

end EntityMapper
