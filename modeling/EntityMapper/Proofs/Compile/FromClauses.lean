import EntityMapper.Proofs.Compile.Resolution

namespace EntityMapper

/-- The aliases of a FROM clause are told apart from each other and from those of the queries around it, every join
along an association starts at an alias before it, and joins are generated once and for what the query itself does not
join. -/
structure Select.FromWellFormed (outer : List Select) (s : Select) : Prop where
  distinct : (s.tables.map FromTable.name).Nodup
  fresh : ∀ t ∈ outer, ∀ name ∈ t.tables.map FromTable.name, name ∉ s.tables.map FromTable.name
  ordered : ∀ before table after, s.tables = before ++ table :: after → ∀ owner a, table.link = some (owner, a) →
    owner ∈ before.map FromTable.name
  once : (s.generated.map GeneratedJoin.pair).Nodup
  uncovered : ∀ j ∈ s.generated, ∀ c ∈ s.joins, (FromTable.ofJoin c.target c.link).pair? ≠ some j.pair

variable {registry : Registry} {outer : List Scope} {role : Role} {p : Plan} {scope : Scope} {s : Select}

/-- The scope of a query holds the aliases of the tables that are rendered for it. -/
theorem Select.Resolves.names (r : Resolves registry outer role p scope s) :
    scope.names = s.tables.map FromTable.name := by
  rw [(Scope.ofPlan_opens r.opened).introduces.names, r.tables]

theorem Select.Resolves.mem_declared (r : Resolves registry outer role p scope s) {c : JoinClause}
    (member : c ∈ s.joins) : .ofJoin c.target c.link ∈ p.declared := by
  obtain ⟨j, listed, resolved⟩ := Except.mem_of_mapM ((clausesOfJoins_eq _).symm.trans r.joins) member
  obtain ⟨target, link, _⟩ := JoinClause.ofJoin_ok resolved
  rw [target, link]
  exact List.mem_append_right _ (List.mem_map_of_mem listed)

/-- A resolved query is well formed inside queries whose aliases the scopes around it hold. -/
theorem Select.Resolves.fromWellFormed (r : Resolves registry outer role p scope s) {around : List Select}
    (held : ∀ t ∈ around, ∃ o ∈ outer, o.names = t.tables.map FromTable.name) : s.FromWellFormed around := by
  have opens := Scope.ofPlan_opens r.opened
  have introduces := opens.introduces
  have generated := r.generated
  rw [← r.tables] at introduces
  refine ⟨?_, ?_, introduces.ordered, ?_, ?_⟩
  · rw [← r.names]
    exact introduces.distinct
  · intro t inside name member
    obtain ⟨o, among, same⟩ := held t inside
    rw [← same] at member
    rw [← r.names]
    exact introduces.apart o among name member
  · rw [generated]
    exact opens.once
  · rw [generated]
    exact fun j inside c member => opens.uncovered j inside _ (r.mem_declared member)

theorem Level.Resolved.fromWellFormed {levels : List Level} (resolved : Resolved registry p levels) {level : Level}
    {around : List Level} (suffix : level :: around <:+ levels) :
    level.select.FromWellFormed (around.map (·.select)) := by
  obtain ⟨_, role, _, resolves⟩ := resolved level around suffix
  refine resolves.fromWellFormed fun t inside => ?_
  obtain ⟨other, among, rfl⟩ := List.mem_map.mp inside
  obtain ⟨_, _, _, _, outerResolves⟩ := resolved.of_mem (suffix.subset (List.mem_cons_of_mem level among))
  exact ⟨other.scope, List.mem_map_of_mem among, outerResolves.names⟩

/-- Every FROM clause of a compiled statement is well formed, and its text is, piece by piece, what it says of its tables:
the words of a join, the table and its alias, and the columns and the condition that it is joined on. -/
theorem compile_fromWellFormed {d : Dialect} {query : CompiledQuery} (run : compile registry d p = .ok query) :
    ∃ s, p.resolve registry = .ok s ∧ query.statement = .ofTokens d (s.tokens d false) ∧
      ∀ t outer, s.Encloses (t :: outer) → t.FromWellFormed outer ∧
        t.fromTokens d = words ["FROM"] ++ [.space] ++ t.fromPieces.flatMap (·.tokens d) ∧
        t.fromPieces.map (·.table) = t.tables := by
  obtain ⟨s, resolved, run⟩ := Except.bind_eq_ok.mp run
  cases run
  refine ⟨s, resolved, rfl, fun t outer encloses => ⟨?_, t.fromTokens_eq d, t.tables_fromPieces⟩⟩
  obtain ⟨levels, chain, holds, _⟩ := encloses.levels (by decide) resolved
  obtain ⟨level, around, rfl, rfl, rfl⟩ := List.map_eq_cons_iff.mp chain
  exact holds.fromWellFormed List.suffix_rfl

def trackerDefinitions : List Definition := [
  ⟨"Client", "client", [.id "id" .integer, .field "name" "name" .text]⟩,
  ⟨"Project", "project", [.id "id" .integer, .field "title" "title" .text, .reference "parent" "Client" "client_id"]⟩,
  ⟨"Task", "task", [.id "id" .integer, .field "title" "title" .text, .reference "parent" "Project" "project_id"]⟩]

def tracker : Registry := (Registry.build trackerDefinitions).toOption.getD default

def taskAs (name : String) : Alias := ⟨name, (tracker.find? "Task").getD default⟩

/-- A path from a task through associations. -/
def taskPath (name first : String) (rest : List String) (field : String) : Expr :=
  .path (((taskAs name).navigate tracker first rest >>= (·.field field)).toOption.getD default)

/-- Tasks by their projects, where there is another task of a project of the same client. -/
def siblingTasks : Plan where
  projections := [.entity (taskAs "task"), .expr (taskPath "task" "parent" [] "title")]
  sources := [taskAs "task"]
  joins := []
  filters := [.exists ⟨[], [taskAs "other"], [],
    [.compare (taskPath "other" "parent" ["parent"] "name") .eq (.literal (.text "kim")),
      .compare (.path (taskAs "other").id) .ne (.path (taskAs "task").id)], [], [], [], none, none, false⟩ false]
  groups := []
  havings := []
  orderings := []
  offset := none
  limit := none
  distinct := false

theorem compile_fromWellFormed_siblingTasks :
    ∃ query, compile tracker .postgres siblingTasks = .ok query ∧ ∃ s t : Select,
      query.statement = .ofTokens .postgres (s.tokens .postgres false) ∧ s.Encloses [t, s] ∧
        s.tables.map FromTable.name = ["task", "task_parent"] ∧ s.FromWellFormed [] ∧
        t.tables.map FromTable.name = ["other", "other_parent", "other_parent_parent"] ∧ t.FromWellFormed [s] := by
  have compiled : compile tracker .postgres siblingTasks = .ok _ := rfl
  obtain ⟨s, resolved, statement, holds⟩ := compile_fromWellFormed compiled
  cases resolved
  exact ⟨_, compiled, _, _, statement, .inner .whole List.mem_cons_self, rfl, (holds _ _ .whole).1, rfl,
    (holds _ _ (.inner .whole List.mem_cons_self)).1⟩

end EntityMapper
