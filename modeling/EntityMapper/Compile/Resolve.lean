import EntityMapper.Compile.Check

namespace EntityMapper

/-- The owner's alias and the association that a join follows. -/
def Join.link (j : Join) : Option (String × Association) :=
  j.association.map fun path => (path.owner.name, path.association)

mutual

def Term.ofExpr (registry : Registry) (scopes : List Scope) (clause : Clause) : Expr → Except Error Term
  | .path p => do
    let owner ← locate scopes p
    .ok (.column owner p)
  | .literal v => .ok (.literal v)
  | .aggregate f argument distinct =>
    if !clause.allowsAggregates then refusePlan (.misplacedAggregate f.keyword clause.name)
    else if argument.isAggregate then refusePlan .nestedAggregate
    else do
      let resolved ← Term.ofExpr registry scopes clause argument
      .ok (.aggregate f resolved distinct)
  | .subquery plan => do
    let select ← Select.ofPlan registry scopes .values plan
    .ok (.subquery select)
termination_by structural e => e

def Condition.ofPredicate (registry : Registry) (scopes : List Scope) (clause : Clause) :
    Predicate → Except Error Condition
  | .compare left op right => do
    let l ← Term.ofExpr registry scopes clause left
    let r ← Term.ofExpr registry scopes clause right
    .ok (.compare l op r)
  | .between expr low high => do
    let e ← Term.ofExpr registry scopes clause expr
    let l ← Term.ofExpr registry scopes clause low
    let h ← Term.ofExpr registry scopes clause high
    .ok (.between e l h)
  | .inValues expr values negated =>
    if values.isEmpty then .ok (.constant negated)
    else do
      let e ← Term.ofExpr registry scopes clause expr
      let vs ← termsOfExprs registry scopes clause values
      .ok (.inValues e vs negated)
  | .inPlan expr plan negated => do
    let e ← Term.ofExpr registry scopes clause expr
    let select ← Select.ofPlan registry scopes .values plan
    .ok (.inSelect e select negated)
  | .isNull expr negated => do
    let e ← Term.ofExpr registry scopes clause expr
    .ok (.isNull e negated)
  | .exists plan negated => do
    let select ← Select.ofPlan registry scopes .existence plan
    .ok (.exists select negated)
  | .and items => do
    let cs ← conditionsOfPredicates registry scopes clause items
    .ok (.and cs)
  | .or items => do
    let cs ← conditionsOfPredicates registry scopes clause items
    .ok (.or cs)
  | .not inner => do
    let c ← Condition.ofPredicate registry scopes clause inner
    .ok (.not c)
termination_by structural p => p

def Output.ofProjection (registry : Registry) (scopes : List Scope) : Projection → Except Error Output
  | .expr e => do
    let t ← Term.ofExpr registry scopes .select e
    .ok (.term t)
  | .entity a => .ok (.entity a)
termination_by structural p => p

def JoinClause.ofJoin (registry : Registry) (scopes : List Scope) : Join → Except Error JoinClause
  | ⟨kind, target, association, condition, fetch⟩ => do
    let c ← conditionOfOption registry scopes condition
    .ok ⟨kind, target, Join.link ⟨kind, target, association, condition, fetch⟩, c⟩
termination_by structural j => j

def SortKey.ofItem (registry : Registry) (scopes : List Scope) : SortItem → Except Error SortKey
  | ⟨expr, direction, nulls⟩ => do
    let t ← Term.ofExpr registry scopes .orderBy expr
    .ok ⟨t, direction, nulls⟩
termination_by structural o => o

/-- A query inside enclosing queries with every name resolved. Counted rows need neither order, nor pages, nor fetched
columns. The clauses are checked in the order in which they are written. -/
def Select.ofPlan (registry : Registry) (outer : List Scope) (role : Role) : Plan → Except Error Select
  | ⟨projections, sources, joins, filters, groups, havings, orderings, offset, limit, distinct⟩ => do
    let plan : Plan := ⟨projections, sources, joins, filters, groups, havings, orderings, offset, limit, distinct⟩
    let scope ← Scope.ofPlan registry outer plan
    checkProjections scope role projections
    plan.checkGrouping
    let outputs ← outputsOfProjections registry (scope :: outer) projections
    let fetches ← plan.fetches role
    let clauses ← clausesOfJoins registry (scope :: outer) joins
    let conditions ← conditionsOfPredicates registry (scope :: outer) .filter filters
    let terms ← termsOfExprs registry (scope :: outer) .groupBy groups
    let groupConditions ← conditionsOfPredicates registry (scope :: outer) .having havings
    if role = .counted then
      .ok ⟨distinct, outputs, [], sources, clauses, scope.generated, conditions, terms, groupConditions, [], none, none⟩
    else do
      let keys ← keysOfItems registry (scope :: outer) orderings
      .ok ⟨distinct, outputs, fetches, sources, clauses, scope.generated, conditions, terms, groupConditions, keys,
        limit, offset⟩
termination_by structural p => p

def conditionOfOption (registry : Registry) (scopes : List Scope) : Option Predicate → Except Error (Option Condition)
  | none => .ok none
  | some p => do
    let c ← Condition.ofPredicate registry scopes .join p
    .ok (some c)
termination_by structural p => p

def termsOfExprs (registry : Registry) (scopes : List Scope) (clause : Clause) : List Expr → Except Error (List Term)
  | [] => .ok []
  | e :: rest => do
    let t ← Term.ofExpr registry scopes clause e
    let ts ← termsOfExprs registry scopes clause rest
    .ok (t :: ts)
termination_by structural es => es

def conditionsOfPredicates (registry : Registry) (scopes : List Scope) (clause : Clause) :
    List Predicate → Except Error (List Condition)
  | [] => .ok []
  | p :: rest => do
    let c ← Condition.ofPredicate registry scopes clause p
    let cs ← conditionsOfPredicates registry scopes clause rest
    .ok (c :: cs)
termination_by structural ps => ps

def outputsOfProjections (registry : Registry) (scopes : List Scope) : List Projection → Except Error (List Output)
  | [] => .ok []
  | p :: rest => do
    let o ← Output.ofProjection registry scopes p
    let os ← outputsOfProjections registry scopes rest
    .ok (o :: os)
termination_by structural ps => ps

def clausesOfJoins (registry : Registry) (scopes : List Scope) : List Join → Except Error (List JoinClause)
  | [] => .ok []
  | j :: rest => do
    let c ← JoinClause.ofJoin registry scopes j
    let cs ← clausesOfJoins registry scopes rest
    .ok (c :: cs)
termination_by structural js => js

def keysOfItems (registry : Registry) (scopes : List Scope) : List SortItem → Except Error (List SortKey)
  | [] => .ok []
  | o :: rest => do
    let k ← SortKey.ofItem registry scopes o
    let ks ← keysOfItems registry scopes rest
    .ok (k :: ks)
termination_by structural os => os

end

end EntityMapper
