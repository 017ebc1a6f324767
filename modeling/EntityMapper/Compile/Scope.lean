import EntityMapper.Query.Predicate
import EntityMapper.Sql.Select

namespace EntityMapper

/-- The aliases that one query declares, in order, and the alias reached from another through an association, the
latest join for it first. -/
structure Scope where
  aliases : List Alias
  hops : List ((String × String) × String)
  generated : List GeneratedJoin
  deriving DecidableEq, Repr, Inhabited

def refusePlan {α : Type} (fault : PlanFault) : Except Error α := .error (.invalidPlan fault)

namespace Scope

def empty : Scope := ⟨[], [], []⟩

def names (s : Scope) : List String := s.aliases.map (·.name)

def has (s : Scope) (name : String) : Bool := s.names.contains name

def find? (s : Scope) (name : String) : Option Alias := s.aliases.find? (·.name == name)

def hop? (s : Scope) (owner association : String) : Option String := s.hops.lookup (owner, association)

/-- Adds an alias that neither the query nor an enclosing one has declared. -/
def declare (outer : List Scope) (s : Scope) (a : Alias) : Except Error Scope :=
  if s.has a.name || outer.any (·.has a.name) then refusePlan (.repeatedAlias a.name)
  else .ok { s with aliases := s.aliases ++ [a] }

/-- A join along an association follows exactly one association of an alias declared before it, to the entity that the
association leads to. Without an association, a left join needs a condition. -/
def declareJoin (outer : List Scope) (s : Scope) (j : Join) : Except Error Scope :=
  match j.association with
  | some path =>
    let owner := path.owner.name
    if !path.leading.isEmpty then refusePlan (.longJoin j.target.name)
    else if !s.has owner then refusePlan (.undeclaredOwner j.target.name owner)
    else if path.target.name != j.target.entity.name then
      refusePlan (.wrongJoinTarget owner path.association.name path.target.name j.target.entity.name)
    else do
      let declared ← s.declare outer j.target
      .ok { declared with hops := ((owner, path.association.name), j.target.name) :: declared.hops }
  | none =>
    if j.kind == .left && j.condition.isNone then refusePlan (.bareLeftJoin j.target.name)
    else s.declare outer j.target

/-- The name itself if it is free, else the name with the least number that makes it free. -/
def freshName (taken : List String) (base : String) : String :=
  if taken.contains base then
    (((List.range taken.length).map fun n => s!"{base}_{n + 1}").find? fun name => !taken.contains name).getD base
  else base

def taken (outer : List Scope) (s : Scope) : List String := s.names ++ outer.flatMap names

def generate (s : Scope) (owner : String) (association : Association) (target : Alias) : Scope :=
  { aliases := s.aliases ++ [target]
    hops := ((owner, association.name), target.name) :: s.hops
    generated := s.generated ++ [⟨owner, association, target⟩] }

/-- Generates joins for the associations of a path that no join covers yet. A path in a join condition has to be
covered by joins of the plan, and an association to many is never joined silently. -/
def cover (registry : Registry) (outer : List Scope) (path : Path) (inCondition : Bool) :
    List Association → String → Scope → Except Error Scope
  | [], _, s => .ok s
  | hop :: rest, current, s =>
    match s.hop? current hop.name with
    | some next => cover registry outer path inCondition rest next s
    | none =>
      if inCondition then refusePlan (.hopInJoinCondition path.shown hop.name)
      else if hop.cardinality = .many then refusePlan (.hopToMany path.shown hop.name)
      else do
        let target ← registry.describe hop.target
        let name := freshName (s.taken outer) s!"{current}_{hop.name}"
        cover registry outer path inCondition rest name (s.generate current hop ⟨name, target⟩)

/-- A path with associations starts from an alias of the query itself. -/
def coverPath (registry : Registry) (outer : List Scope) (s : Scope) (path : Path) (inCondition : Bool) :
    Except Error Scope :=
  if path.hops.isEmpty then .ok s
  else if s.has path.root then s.cover registry outer path inCondition path.hops path.root
  else if outer.any (·.has path.root) then refusePlan (.outerNavigation path.shown)
  else refusePlan (.unknownAlias path.root path.shown)

/-- The alias that a path's associations lead to. -/
def follow (s : Scope) (path : Path) : List Association → String → Except Error String
  | [], current => .ok current
  | hop :: rest, current =>
    match s.hop? current hop.name with
    | some next => s.follow path rest next
    | none => refusePlan (.uncoveredPath path.shown)

end Scope

/-- The path inside an expression, which may be an argument of aggregates. -/
def Expr.path? : Expr → Option Path
  | .path p => some p
  | .aggregate _ argument _ => argument.path?
  | .literal _ | .subquery _ => none
termination_by structural e => e

/-- The paths of a query outside its subqueries in the order in which joins are generated for them, each with whether
it stands in a join condition. -/
def Plan.pathUses (p : Plan) : List (Path × Bool) :=
  let paths (inCondition : Bool) (es : List Expr) : List (Path × Bool) :=
    es.filterMap fun e => e.path?.map (·, inCondition)
  paths false (p.projections.filterMap (·.expr?)) ++
    paths true (p.joins.flatMap fun j => j.condition.elim [] Predicate.exprs) ++
    paths false ((p.filters ++ p.havings).flatMap Predicate.exprs) ++
    paths false p.groups ++
    paths false (p.orderings.map (·.expr))

/-- The scope of a query inside enclosing queries: its sources, its joins and the joins its paths need. One registry
describes the entities of a plan and of everything nested in it; a nested query does not bring that of its own first
source. -/
def Scope.ofPlan (registry : Registry) (outer : List Scope) (p : Plan) : Except Error Scope := do
  if p.sources.isEmpty then refusePlan .noSource
  else do
    let sourced ← p.sources.foldlM (declare outer) empty
    let joined ← p.joins.foldlM (declareJoin outer) sourced
    p.pathUses.foldlM (fun s (path, inCondition) => s.coverPath registry outer path inCondition) joined

/-- The alias whose column a path denotes. The path's root is searched from the innermost query outwards. -/
def locate (scopes : List Scope) (path : Path) : Except Error String :=
  match scopes.findSome? fun s => (s.find? path.root).map fun a => (s, a) with
  | none => refusePlan (.unknownAlias path.root path.shown)
  | some (s, a) =>
    if a.entity.name != path.rootEntity then refusePlan (.wrongEntity path.root a.entity.name path.rootEntity)
    else s.follow path path.hops path.root

end EntityMapper
