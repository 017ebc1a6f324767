import EntityMapper.Compile.Layout
import EntityMapper.Sql.Render

namespace EntityMapper

/-- The sources and joins of a query. -/
def Select.fromTokens (d : Dialect) (s : Select) : List Token :=
  words ["FROM"] ++ [.space] ++ sourceTokens s.sources ++ joinTokens d s.joins ++ s.generated.flatMap GeneratedJoin.tokens

def Select.whereTokens (d : Dialect) (s : Select) : List Token :=
  clauseTokens ["WHERE"] (wordBetween "AND") (conditionTokens d s.filters)

/-- The number of a query's rows, counted on its sources, or on itself where the select list decides how many rows
there are. -/
inductive CountQuery where
  | sources (select : Select)
  | derived (select : Select)

def countWord : List Token := words ["SELECT", "COUNT"] ++ parenthesized [.symbol "*"]

def CountQuery.tokens (d : Dialect) : CountQuery → List Token
  | sources s => countWord ++ s.fromTokens d ++ s.whereTokens d
  | derived s =>
    countWord ++ words ["FROM"] ++ [.space] ++ parenthesized (s.tokens d true) ++ wordBetween "AS" ++
      [.identifier "grappelli_count"]

namespace Plan

/-- Grouping, distinct rows, conditions on groups and aggregates change how many rows there are. -/
def needsDerivedCount (p : Plan) : Bool :=
  p.distinct || !p.groups.isEmpty || !p.havings.isEmpty || p.projectsAggregate

/-- A query over the same sources, joins and filters. The select list is checked but not resolved. -/
def counting (registry : Registry) (p : Plan) : Except Error Select := do
  let scope ← Scope.ofPlan registry [] p
  checkProjections scope .rows p.projections
  let _ ← p.fetches .rows
  let joins ← clausesOfJoins registry [scope] p.joins
  let filters ← conditionsOfPredicates registry [scope] .filter p.filters
  .ok ⟨false, [], [], p.sources, joins, scope.generated, filters, [], [], [], none, none⟩

def resolve (registry : Registry) (p : Plan) : Except Error Select := Select.ofPlan registry [] .rows p

def resolveCount (registry : Registry) (p : Plan) : Except Error CountQuery :=
  if p.needsDerivedCount then do
    let select ← Select.ofPlan registry [] .counted p
    .ok (.derived select)
  else do
    let select ← p.counting registry
    .ok (.sources select)

end Plan

/-- A statement and the layout of its rows. -/
structure CompiledQuery where
  statement : Statement
  layout : Layout

/-- Compiles a plan. Its registry also serves the plans nested in it, whose sources are taken to be from the same one. -/
def compile (registry : Registry) (d : Dialect) (p : Plan) : Except Error CompiledQuery := do
  let select ← p.resolve registry
  .ok ⟨.ofTokens d (select.tokens d false), .ofProjections p.projections select.fetches⟩

def compileCount (registry : Registry) (d : Dialect) (p : Plan) : Except Error Statement := do
  let query ← p.resolveCount registry
  .ok (.ofTokens d (query.tokens d))

end EntityMapper
