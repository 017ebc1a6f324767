import EntityMapper.Compile.Check
import EntityMapper.Proofs.Query.Nesting

namespace EntityMapper

mutual

/-- An expression in which one condition is missing, at any depth. -/
inductive ExprGap where
  | aggregate (function : AggregateFunction) (argument : ExprGap) (distinct : Bool)
  | subquery (plan : PlanGap)

/-- A condition in which one condition is missing: it is missing as a whole, or one of its parts has the gap. -/
inductive PredicateGap where
  | here
  | compareLeft (left : ExprGap) (op : CompareOp) (right : Expr)
  | compareRight (left : Expr) (op : CompareOp) (right : ExprGap)
  | between (expr : ExprGap) (low high : Expr)
  | betweenLow (expr : Expr) (low : ExprGap) (high : Expr)
  | betweenHigh (expr low : Expr) (high : ExprGap)
  | inValues (expr : ExprGap) (values : List Expr) (negated : Bool)
  | inValuesItem (expr : Expr) (before : List Expr) (value : ExprGap) (after : List Expr) (negated : Bool)
  | inPlan (expr : ExprGap) (plan : Plan) (negated : Bool)
  | inPlanInner (expr : Expr) (plan : PlanGap) (negated : Bool)
  | isNull (expr : ExprGap) (negated : Bool)
  | exists (plan : PlanGap) (negated : Bool)
  | and (before : List Predicate) (item : PredicateGap) (after : List Predicate)
  | or (before : List Predicate) (item : PredicateGap) (after : List Predicate)
  | not (inner : PredicateGap)

/-- A plan in which one condition is missing. The clause with the gap replaces that of the given plan. -/
inductive PlanGap where
  | projection (plan : Plan) (before : List Projection) (expr : ExprGap) (after : List Projection)
  | join (plan : Plan) (before : List Join) (join : Join) (condition : PredicateGap) (after : List Join)
  | filter (plan : Plan) (before : List Predicate) (condition : PredicateGap) (after : List Predicate)
  | group (plan : Plan) (before : List Expr) (expr : ExprGap) (after : List Expr)
  | having (plan : Plan) (before : List Predicate) (condition : PredicateGap) (after : List Predicate)
  | ordering (plan : Plan) (before : List SortItem) (item : SortItem) (expr : ExprGap) (after : List SortItem)

end

mutual

/-- The expression with a condition in its gap. -/
def ExprGap.fill (c : Predicate) : ExprGap → Expr
  | .aggregate f argument distinct => .aggregate f (argument.fill c) distinct
  | .subquery plan => .subquery (plan.fill c)
termination_by structural g => g

def PredicateGap.fill (c : Predicate) : PredicateGap → Predicate
  | .here => c
  | .compareLeft left op right => .compare (left.fill c) op right
  | .compareRight left op right => .compare left op (right.fill c)
  | .between expr low high => .between (expr.fill c) low high
  | .betweenLow expr low high => .between expr (low.fill c) high
  | .betweenHigh expr low high => .between expr low (high.fill c)
  | .inValues expr values negated => .inValues (expr.fill c) values negated
  | .inValuesItem expr before value after negated => .inValues expr (before ++ value.fill c :: after) negated
  | .inPlan expr plan negated => .inPlan (expr.fill c) plan negated
  | .inPlanInner expr plan negated => .inPlan expr (plan.fill c) negated
  | .isNull expr negated => .isNull (expr.fill c) negated
  | .exists plan negated => .exists (plan.fill c) negated
  | .and before item after => .and (before ++ item.fill c :: after)
  | .or before item after => .or (before ++ item.fill c :: after)
  | .not inner => .not (inner.fill c)
termination_by structural g => g

def PlanGap.fill (c : Predicate) : PlanGap → Plan
  | .projection plan before expr after => { plan with projections := before ++ .expr (expr.fill c) :: after }
  | .join plan before join condition after =>
    { plan with joins := before ++ { join with condition := some (condition.fill c) } :: after }
  | .filter plan before condition after => { plan with filters := before ++ condition.fill c :: after }
  | .group plan before expr after => { plan with groups := before ++ expr.fill c :: after }
  | .having plan before condition after => { plan with havings := before ++ condition.fill c :: after }
  | .ordering plan before item expr after =>
    { plan with orderings := before ++ { item with expr := expr.fill c } :: after }
termination_by structural g => g

end

/-- The paths of a condition from left to right. Those inside subqueries are not among them. -/
def Predicate.paths (p : Predicate) : List Path := p.exprs.filterMap Expr.path?

theorem Predicate.exprsOfAll_eq (ps : List Predicate) : exprsOfAll ps = ps.flatMap exprs := by
  induction ps with
  | nil => rfl
  | cons p rest ih => rw [exprsOfAll, ih, List.flatMap_cons]

/-- The paths of conditions one of which is told apart. -/
theorem Predicate.paths_split (before : List Predicate) (p : Predicate) (after : List Predicate) :
    ((before ++ p :: after).flatMap exprs).filterMap Expr.path? =
      (before.flatMap exprs).filterMap Expr.path? ++ (p.paths ++ (after.flatMap exprs).filterMap Expr.path?) := by
  rw [List.flatMap_append, List.flatMap_cons, List.filterMap_append, List.filterMap_append, paths]

/-- The gap of an expression is inside of a subquery, so the expression has no path. -/
theorem ExprGap.path?_fill (c : Predicate) : ∀ g : ExprGap, (g.fill c).path? = none
  | .aggregate _ argument _ => argument.path?_fill c
  | .subquery _ => rfl

theorem ExprGap.isAggregate_fill (a b : Predicate) (g : ExprGap) : (g.fill a).isAggregate = (g.fill b).isAggregate := by
  cases g <;> rfl

/-- Whichever of two conditions with the same paths fills the gap, the paths are the same. -/
theorem PredicateGap.paths_fill {a b : Predicate} (same : a.paths = b.paths) :
    ∀ g : PredicateGap, (g.fill a).paths = (g.fill b).paths
  | .here => same
  | .and before item after | .or before item after => by
    change (Predicate.exprsOfAll _).filterMap Expr.path? = (Predicate.exprsOfAll _).filterMap Expr.path?
    rw [Predicate.exprsOfAll_eq, Predicate.exprsOfAll_eq, Predicate.paths_split, Predicate.paths_split,
      item.paths_fill same]
  | .not inner => inner.paths_fill same
  | .compareLeft .. | .compareRight .. | .between .. | .betweenLow .. | .betweenHigh .. | .inValues .. | .inValuesItem ..
  | .inPlan .. | .inPlanInner .. | .isNull .. | .exists .. => by
    simp only [Predicate.paths, fill, Predicate.exprs, List.filterMap_append, List.filterMap_cons, ExprGap.path?_fill]

end EntityMapper
