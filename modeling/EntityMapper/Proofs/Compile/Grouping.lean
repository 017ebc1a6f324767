import EntityMapper.Proofs.Compile.AliasEntities

namespace EntityMapper

/-- The projection has a value for every row and none for a group of rows: a path, or the columns of an entity. -/
def Projection.ofRows : Projection → Bool
  | .expr (.path _) | .entity _ => true
  | .expr _ => false

namespace Plan

def ordersAggregate (p : Plan) : Bool := p.orderings.any (·.expr.isAggregate)

/-- The results of a query are made from groups of rows. -/
def Aggregates (p : Plan) : Prop :=
  p.groups ≠ [] ∨ p.havings ≠ [] ∨ p.projectsAggregate = true ∨ p.ordersAggregate = true

/-- The clauses for which a query's select list is looked at. Conditions on groups and the order are not among them. -/
def ChecksGrouping (p : Plan) : Prop := p.groups ≠ [] ∨ p.projectsAggregate = true

/-- A query selects only what it groups by, entities by their keys, and fetches nothing. -/
structure SelectsGrouped (p : Plan) : Prop where
  paths : ∀ path, .expr (.path path) ∈ p.projections → .path path ∈ p.groups
  entities : ∀ a, .entity a ∈ p.projections → .path a.id ∈ p.groups
  unfetched : ∀ j ∈ p.joins, j.fetch = false

theorem groupsBy_iff {p : Plan} {path : Path} : p.groupsBy path = true ↔ .path path ∈ p.groups := by
  rw [groupsBy, List.any_eq_true]
  constructor
  · rintro ⟨e, member, same⟩
    cases e with
    | path g => rwa [← eq_of_beq same]
    | literal v => cases same
    | aggregate f argument distinct => cases same
    | subquery plan => cases same
  · intro member
    exact ⟨_, member, beq_self_eq_true path⟩

/-- The select list has no fault exactly when its paths and the keys of its entities are grouped by. -/
theorem findSome?_groupingFault? {p : Plan} : p.projections.findSome? p.groupingFault? = none ↔
    (∀ path, .expr (.path path) ∈ p.projections → .path path ∈ p.groups) ∧
      ∀ a, .entity a ∈ p.projections → .path a.id ∈ p.groups := by
  rw [List.findSome?_eq_none_iff]
  constructor
  · intro none
    constructor
    · intro path member
      have own := none _ member
      by_cases grouped : p.groupsBy path = true
      · exact groupsBy_iff.mp grouped
      · simp [groupingFault?, grouped] at own
    · intro a member
      have own := none _ member
      by_cases grouped : p.groupsBy a.id = true
      · exact groupsBy_iff.mp grouped
      · simp [groupingFault?, grouped] at own
  · rintro ⟨paths, entities⟩ item member
    cases item with
    | entity a => simp [groupingFault?, groupsBy_iff.mpr (entities a member)]
    | expr e =>
      cases e with
      | path path => simp [groupingFault?, groupsBy_iff.mpr (paths path member)]
      | literal v => rfl
      | aggregate f argument distinct => rfl
      | subquery plan => rfl

/-- The grouping of a query is accepted exactly when the query selects only what is grouped, or is not looked at. -/
theorem checkGrouping_iff {p : Plan} : p.checkGrouping = .ok () ↔ (p.ChecksGrouping → p.SelectsGrouped) := by
  have unlooked : (!p.projectsAggregate && p.groups.isEmpty) = true ↔ ¬p.ChecksGrouping := by
    simp [ChecksGrouping, and_comm]
  unfold checkGrouping
  split
  case isTrue skipped => exact ⟨fun _ looked => absurd looked (unlooked.mp skipped), fun _ => rfl⟩
  case isFalse looked =>
    have looked : p.ChecksGrouping := by
      by_contra skipped
      exact looked (unlooked.mpr skipped)
    split
    case h_1 fault found =>
      constructor
      · intro run
        cases run
      · intro law
        obtain ⟨paths, entities, _⟩ := law looked
        rw [findSome?_groupingFault?.mpr ⟨paths, entities⟩] at found
        cases found
    case h_2 faultless =>
      obtain ⟨paths, entities⟩ := findSome?_groupingFault?.mp faultless
      split
      case isTrue fetching =>
        constructor
        · intro run
          cases run
        · intro law
          obtain ⟨j, member, fetched⟩ := List.any_eq_true.mp fetching
          rw [(law looked).unfetched j member] at fetched
          cases fetched
      case isFalse unfetching =>
        refine ⟨fun _ _ => ⟨paths, entities, fun j member => ?_⟩, fun _ => rfl⟩
        by_contra fetched
        exact unfetching (List.any_eq_true.mpr ⟨j, member, by simpa using fetched⟩)

/-- A query that selects no entity fetches nothing. -/
theorem fetches_unselected {p : Plan} {role : Role} {fetched : List FetchJoin} (run : p.fetches role = .ok fetched)
    (none : ∀ a, .entity a ∉ p.projections) : ∀ j ∈ p.joins, j.fetch = false := by
  have unselected : p.projections.filterMap (·.source?) = [] := by
    rw [List.filterMap_eq_nil_iff]
    intro item member
    cases item with
    | expr e => rfl
    | entity a => exact absurd member (none a)
  intro j member
  by_contra fetch
  have listed : j ∈ p.joins.filter (·.fetch) := List.mem_filter.mpr ⟨member, by simpa using fetch⟩
  simp only [fetches, unselected, List.map_nil] at run
  cases fetching : p.joins.filter (·.fetch) with
  | nil =>
    rw [fetching] at listed
    cases listed
  | cons first rest =>
    rw [fetching, List.isEmpty_cons, if_neg Bool.false_ne_true] at run
    have refused : fetchJoins [] (first :: rest) ≠ .ok fetched := by
      intro run
      unfold fetchJoins at run
      split at run
      · cases run
      · split at run
        · cases run
        · cases run
    cases role with
    | rows => exact refused run
    | counted => exact refused run
    | values => cases run
    | existence => cases run

end Plan

/-- The columns that a query selects are among those that it groups by, entities by the columns of their keys. -/
structure Select.SelectsGrouped (s : Select) : Prop where
  columns : ∀ owner path, .term (.column owner path) ∈ s.outputs → .column owner path ∈ s.groups
  entities : ∀ a, .entity a ∈ s.outputs → .column a.name a.id ∈ s.groups
  unfetched : s.fetches = []

variable {registry : Registry} {scopes outer : List Scope} {clause : Clause} {role : Role}

/-- Only a path is resolved to a column: that of the alias that it is located at. -/
theorem Term.ofExpr_column {e : Expr} {owner : String} {path : Path}
    (run : ofExpr registry scopes clause e = .ok (.column owner path)) :
    e = .path path ∧ locate scopes path = .ok owner := by
  cases e with
  | path p =>
    obtain ⟨found, located, run⟩ := Except.bind_eq_ok.mp run
    cases run
    exact ⟨rfl, located⟩
  | literal v => cases run
  | aggregate f argument distinct =>
    obtain ⟨_, _, same⟩ := ofExpr_aggregate run
    cases same
  | subquery plan =>
    obtain ⟨_, _, run⟩ := Except.bind_eq_ok.mp run
    cases run

namespace Select.Resolves

variable {p : Plan} {scope : Scope} {s : Select}

/-- A path that a query groups by is rendered at the alias that it is located at. -/
theorem column_mem_groups (r : Resolves registry outer role p scope s) {path : Path} (grouped : .path path ∈ p.groups) :
    ∃ owner, locate (scope :: outer) path = .ok owner ∧ .column owner path ∈ s.groups := by
  obtain ⟨t, inside, resolved⟩ := Except.ok_of_mapM ((termsOfExprs_eq _).symm.trans r.groups) grouped
  obtain ⟨owner, located, run⟩ := Except.bind_eq_ok.mp resolved
  cases run
  exact ⟨owner, located, inside⟩

theorem selectsGrouped (r : Resolves registry outer role p scope s) (holds : p.SelectsGrouped) : s.SelectsGrouped := by
  have projected {o : Output} (member : o ∈ s.outputs) :
      ∃ item ∈ p.projections, Output.ofProjection registry (scope :: outer) item = .ok o :=
    Except.mem_of_mapM ((outputsOfProjections_eq _).symm.trans r.outputs) member
  refine ⟨fun owner path member => ?_, fun a member => ?_, ?_⟩
  · obtain ⟨item, listed, run⟩ := projected member
    cases item with
    | entity a => cases run
    | expr e =>
      obtain ⟨t, resolved, run⟩ := Except.bind_eq_ok.mp run
      cases run
      obtain ⟨rfl, located⟩ := Term.ofExpr_column resolved
      obtain ⟨found, same, grouped⟩ := r.column_mem_groups (holds.paths path listed)
      cases located.symm.trans same
      exact grouped
  · obtain ⟨item, listed, run⟩ := projected member
    cases item with
    | expr e =>
      obtain ⟨t, _, run⟩ := Except.bind_eq_ok.mp run
      cases run
    | entity b =>
      cases run
      obtain ⟨found, located, grouped⟩ := r.column_mem_groups (holds.entities a listed)
      rwa [Scope.locate_unnavigated rfl located] at grouped
  · obtain ⟨fetched, ran, same⟩ := r.fetches
    have none : p.joins.filter (·.fetch) = [] := by
      rw [List.filter_eq_nil_iff]
      intro j member
      simp [holds.unfetched j member]
    simp only [Plan.fetches, none, List.isEmpty_nil, if_true] at ran
    cases ran
    rw [same, ite_self]

/-- An accepted query selects only what is grouped exactly when it is looked at for that, or selects nothing that has a
value for every row. -/
theorem selectsGrouped_iff (r : Resolves registry outer role p scope s) :
    p.SelectsGrouped ↔ p.ChecksGrouping ∨ ∀ item ∈ p.projections, item.ofRows = false := by
  constructor
  · intro holds
    by_cases looked : p.ChecksGrouping
    · exact .inl looked
    · have ungrouped : p.groups = [] := by
        by_contra grouped
        exact looked (.inl grouped)
      refine .inr fun item member => ?_
      by_contra rows
      cases item with
      | entity a =>
        have grouped := holds.entities a member
        rw [ungrouped] at grouped
        cases grouped
      | expr e =>
        cases e with
        | path path =>
          have grouped := holds.paths path member
          rw [ungrouped] at grouped
          cases grouped
        | literal v => exact rows rfl
        | aggregate f argument distinct => exact rows rfl
        | subquery plan => exact rows rfl
  · rintro (looked | constant)
    · exact Plan.checkGrouping_iff.mp r.grouped looked
    · obtain ⟨fetched, ran, _⟩ := r.fetches
      refine ⟨fun path member => ?_, fun a member => ?_, Plan.fetches_unselected ran fun a member => ?_⟩
      · cases constant _ member
      · cases constant _ member
      · cases constant _ member

end Select.Resolves

/-- Every query of an accepted statement that groups rows or selects an aggregate selects only what it groups by, and
fetches nothing. One that only restricts groups or sorts by an aggregate does so exactly when it selects neither paths nor
entities. -/
theorem compile_selectsGrouped {p : Plan} {d : Dialect} {query : CompiledQuery} (run : compile registry d p = .ok query) :
    ∃ s, p.resolve registry = .ok s ∧ query.statement = .ofTokens d (s.tokens d false) ∧
      ∀ chain, s.Encloses chain → ∃ levels, levels.map (·.select) = chain ∧ Level.Resolved registry p levels ∧
        (∃ inner scope, levels = inner ++ [⟨p, scope, s⟩]) ∧ ∀ level ∈ levels,
          (level.plan.Aggregates → (level.plan.SelectsGrouped ↔
            level.plan.ChecksGrouping ∨ ∀ item ∈ level.plan.projections, item.ofRows = false)) ∧
          (level.plan.SelectsGrouped → level.select.SelectsGrouped) := by
  obtain ⟨s, resolved, run⟩ := Except.bind_eq_ok.mp run
  cases run
  refine ⟨s, resolved, rfl, fun chain encloses => ?_⟩
  obtain ⟨levels, selects, holds, last⟩ := encloses.levels (by decide) resolved
  refine ⟨levels, selects, holds, last, fun level member => ?_⟩
  obtain ⟨_, _, _, _, r⟩ := holds.of_mem member
  exact ⟨fun _ => r.selectsGrouped_iff, r.selectsGrouped⟩

def taskTitle (name : String) : Path := ((taskAs name).field "title").toOption.getD default

/-- The titles of more than one task each, with the number of their tasks. -/
def repeatedTitles : Plan where
  projections := [.expr (.path (taskTitle "task")), .expr (taskAs "task").count]
  sources := [taskAs "task"]
  joins := []
  filters := []
  groups := [.path (taskTitle "task")]
  havings := [.compare (taskAs "task").count .gt (.literal (.int 1))]
  orderings := [⟨(taskAs "task").count, .descending, none⟩]
  offset := none
  limit := none
  distinct := false

theorem compile_selectsGrouped_repeatedTitles :
    ∃ query s, compile tracker .postgres repeatedTitles = .ok query ∧ repeatedTitles.resolve tracker = .ok s ∧
      repeatedTitles.Aggregates ∧ repeatedTitles.SelectsGrouped ∧ s.SelectsGrouped := by
  have compiled : compile tracker .postgres repeatedTitles = .ok _ := rfl
  have grouped : repeatedTitles.groups ≠ [] := List.cons_ne_nil _ _
  obtain ⟨s, resolved, _, holds⟩ := compile_selectsGrouped compiled
  obtain ⟨levels, _, _, ⟨inner, scope, last⟩, kept⟩ := holds _ .whole
  obtain ⟨law, outputs⟩ := kept ⟨repeatedTitles, scope, s⟩ (by simp [last])
  have selects := (law (.inl grouped)).mpr (.inl (.inl grouped))
  exact ⟨_, s, compiled, resolved, .inl grouped, selects, outputs selects⟩

/-- The titles of tasks under a condition on groups of tasks that are never made. -/
def titlesOfMany : Plan := { repeatedTitles with
  projections := [.expr (.path (taskTitle "task"))], groups := [], orderings := [] }

/-- Tasks with their projects, sorted by a number of tasks. -/
def tasksByNumber : Plan := { titlesOfMany with
  projections := [.entity (taskAs "task")]
  joins := [⟨.left, projectAs "project", ((taskAs "task").association tracker "parent").toOption, none, true⟩]
  havings := []
  orderings := repeatedTitles.orderings }

/-- A query that only restricts groups selects a path that it does not group by, and one that only sorts by an aggregate
an entity together with what it fetches. The first is counted as a grouped query, and both are refused as soon as they
select the aggregate. -/
theorem compile_selects_ungrouped :
    (∃ query, compile tracker .postgres titlesOfMany = .ok query ∧ titlesOfMany.Aggregates ∧
      ¬titlesOfMany.SelectsGrouped ∧ titlesOfMany.needsDerivedCount = true) ∧
    (∃ query, compile tracker .postgres tasksByNumber = .ok query ∧ tasksByNumber.Aggregates ∧
      ¬tasksByNumber.SelectsGrouped ∧ query.layout.fetches.length = 1) ∧
    compile tracker .postgres { titlesOfMany with projections := repeatedTitles.projections } =
      .error (.invalidPlan (.ungroupedPath "task.title")) ∧
    compile tracker .postgres { tasksByNumber with
      projections := tasksByNumber.projections ++ [.expr (taskAs "task").count] } =
      .error (.invalidPlan (.ungroupedEntity "task")) := by
  refine ⟨⟨_, rfl, .inr (.inl (List.cons_ne_nil _ _)), fun holds => ?_, rfl⟩,
    ⟨_, rfl, .inr (.inr (.inr rfl)), fun holds => ?_, rfl⟩, rfl, rfl⟩
  · exact absurd (holds.paths (taskTitle "task") List.mem_cons_self) List.not_mem_nil
  · exact absurd (holds.entities (taskAs "task") List.mem_cons_self) List.not_mem_nil

end EntityMapper
