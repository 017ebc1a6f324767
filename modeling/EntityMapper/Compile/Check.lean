import EntityMapper.Compile.Scope

namespace EntityMapper

/-- What a query is compiled for: its rows, the count of its rows, the values of a subquery, or their existence. -/
inductive Role where
  | rows
  | counted
  | values
  | existence
  deriving DecidableEq, Repr, Inhabited

inductive Clause where
  | select
  | filter
  | join
  | groupBy
  | having
  | orderBy
  deriving DecidableEq, Repr, Inhabited

namespace Clause

def allowsAggregates : Clause → Bool
  | select | having | orderBy => true
  | filter | join | groupBy => false

def name : Clause → String
  | select => "select"
  | filter => "where"
  | join => "on"
  | groupBy => "group by"
  | having => "having"
  | orderBy => "order by"

end Clause

/-- Only an existence query may select nothing, and selected entities are declared by the query itself. -/
def checkProjections (s : Scope) (role : Role) (projections : List Projection) : Except Error Unit :=
  if projections.isEmpty && role != .existence then refusePlan .noProjection
  else
    match (projections.filterMap (·.source?)).find? fun a => !s.has a.name with
    | some a => refusePlan (.unsourcedProjection a.name)
    | none => .ok ()

namespace Plan

def projectsAggregate (p : Plan) : Bool := p.projections.any fun item => item.expr?.any (·.isAggregate)

/-- The path is one of the grouping expressions. -/
def groupsBy (p : Plan) (path : Path) : Bool :=
  p.groups.any fun
    | .path g => g == path
    | _ => false

/-- Why a projection may not stand in a grouped query. -/
def groupingFault? (p : Plan) : Projection → Option PlanFault
  | .expr (.path path) => if p.groupsBy path then none else some (.ungroupedPath path.shown)
  | .expr _ => none
  | .entity a => if p.groupsBy a.id then none else some (.ungroupedEntity a.name)

/-- A query that groups or selects an aggregate selects only grouped paths and entities, and fetches nothing. -/
def checkGrouping (p : Plan) : Except Error Unit :=
  if !p.projectsAggregate && p.groups.isEmpty then .ok ()
  else
    match p.projections.findSome? p.groupingFault? with
    | some fault => refusePlan fault
    | none => if p.joins.any (·.fetch) then refusePlan .groupedFetch else .ok ()

end Plan

/-- Fetch joins follow an association of a selected entity, or of one that is fetched before, and have no condition. -/
def fetchJoins (owners : List String) : List Join → Except Error (List FetchJoin)
  | [] => .ok []
  | j :: rest =>
    match j.association with
    | none => refusePlan (.unrelatedFetch j.target.name)
    | some path =>
      if j.condition.isSome then refusePlan (.conditionalFetch j.target.name)
      else if !owners.contains path.owner.name then refusePlan (.strayFetch j.target.name path.owner.name)
      else do
        let others ← fetchJoins (j.target.name :: owners) rest
        .ok (⟨path.owner.name, path.association, j.target⟩ :: others)

def Plan.fetches (p : Plan) (role : Role) : Except Error (List FetchJoin) :=
  let fetching := p.joins.filter (·.fetch)
  if fetching.isEmpty then .ok []
  else
    match role with
    | .values | .existence => refusePlan .nestedFetch
    | .rows | .counted => fetchJoins ((p.projections.filterMap (·.source?)).map (·.name)) fetching

end EntityMapper
