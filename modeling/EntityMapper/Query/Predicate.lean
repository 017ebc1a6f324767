import EntityMapper.Query.Expr

namespace EntityMapper.Predicate

/-- A conjunction on the left takes the items of one on the right, or the other condition as one more item. -/
def conjoin : Predicate → Predicate → Predicate
  | .and left, .and right => .and (left ++ right)
  | .and left, other => .and (left ++ [other])
  | this, other => .and [this, other]

def disjoin : Predicate → Predicate → Predicate
  | .or left, .or right => .or (left ++ right)
  | .or left, other => .or (left ++ [other])
  | this, other => .or [this, other]

/-- A double negation cancels. -/
def negate : Predicate → Predicate
  | .not inner => inner
  | other => .not other

/-- The conjunction of all conditions; there is none of no conditions. -/
def all? : List Predicate → Option Predicate
  | [] => none
  | first :: rest => some (rest.foldl conjoin first)

def any? : List Predicate → Option Predicate
  | [] => none
  | first :: rest => some (rest.foldl disjoin first)

mutual

/-- The expressions of a condition from left to right. Those inside subqueries are not among them. -/
def exprs : Predicate → List Expr
  | .compare left _ right => [left, right]
  | .between expr low high => [expr, low, high]
  | .inValues expr values _ => expr :: values
  | .inPlan expr _ _ => [expr]
  | .isNull expr _ => [expr]
  | .exists _ _ => []
  | .and items => exprsOfAll items
  | .or items => exprsOfAll items
  | .not inner => inner.exprs
termination_by structural p => p

def exprsOfAll : List Predicate → List Expr
  | [] => []
  | item :: rest => item.exprs ++ exprsOfAll rest
termination_by structural ps => ps

end

end EntityMapper.Predicate
