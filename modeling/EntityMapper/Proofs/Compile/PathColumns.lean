import EntityMapper.Proofs.Compile.FromClauses
import EntityMapper.Proofs.Compile.PathTables
import EntityMapper.Proofs.Sql.Inclusion

namespace EntityMapper

variable {registry : Registry} {p : Plan} {levels : List Level}

theorem Level.Resolved.grounded (resolved : Resolved registry p levels) (built : p.Built registry)
    (plain : p.Unambiguous) : ∀ level ∈ levels,
      p.Contains level.plan ∧ ∃ outer, level.select.Grounded registry outer level.plan level.scope := by
  intro level member
  obtain ⟨contained, _, role, kept, resolves⟩ := resolved.of_mem member
  exact ⟨contained, _, ⟨role, kept, resolves⟩, built _ contained, plain _ _ contained contained⟩

/-- The tables and the paths of a query stand in its text, each path behind an alias that joins lead to from its root.
It is the right one exactly when the generated joins among these serve, and always when whatever is looked for in empty
lists starts at aliases that the queries declare. -/
structure Select.PathsPlaced (registry : Registry) (d : Dialect) (p : Plan) (outer : List Select) (s : Select) :
    Prop where
  tables : ∀ t ∈ s.tables, t.tokens <:+: s.tokens d false
  text : ∀ owner path, (owner, path) ∈ s.columns → columnTokens owner path.column <:+: s.tokens d false
  reaches : ∀ owner path, (owner, path) ∈ s.columns →
    ∃ last, path.Reaches registry (s :: outer) (fun _ _ _ => True) owner last
  right_iff : ∀ owner path, (owner, path) ∈ s.columns →
    (path.Right registry (s :: outer) owner ↔ path.Served registry (s :: outer) owner)
  right : p.Rooted → ∀ owner path, (owner, path) ∈ s.columns → path.Right registry (s :: outer) owner

theorem Level.Resolved.pathsPlaced {level : Level} {around : List Level} (d : Dialect) (agree : registry.TablesAgree)
    (built : p.Built registry) (plain : p.Unambiguous) (resolved : Resolved registry p (level :: around)) :
    level.select.PathsPlaced registry d p (around.map (·.select)) := by
  have all := resolved.grounded built plain
  have grounded : ∀ s ∈ (level :: around).map (·.select), ∃ outer q scope, s.Grounded registry outer q scope := by
    refine List.forall_mem_map.mpr fun other inside => ?_
    obtain ⟨_, outer, g⟩ := all _ inside
    exact ⟨outer, _, _, g⟩
  obtain ⟨_, _, _, resolves⟩ := resolved level around List.suffix_rfl
  obtain ⟨_, _, own⟩ := all _ List.mem_cons_self
  have builds {owner : String} {path : Path} (member : (owner, path) ∈ level.select.columns) : path.Built registry := by
    obtain ⟨⟨_, used⟩, _⟩ := resolves.columns member
    exact own.registered.paths path (Plan.mem_paths_of_pathUses used)
  -- The path starts at an alias of this query or of one around it.
  have located {owner : String} {path : Path} (member : (owner, path) ∈ level.select.columns) :
      ∃ other ∈ level :: around, ∃ a ∈ other.scope.aliases, a.name = path.root ∧ a.entity.name = path.rootEntity ∧
        other.scope.follow path path.hops path.root = .ok owner := by
    obtain ⟨_, located⟩ := resolves.columns member
    obtain ⟨scope, inside, a, held, name, entity, followed⟩ := Scope.locate_ok located
    rw [← List.map_cons] at inside
    obtain ⟨other, among, rfl⟩ := List.mem_map.mp inside
    exact ⟨other, among, a, held, name, entity, followed⟩
  refine ⟨fun _ member => Select.table_rendered d false member, fun _ _ member => Select.column_rendered d false member,
    fun owner path member => ?_, fun _ _ member => Path.right_iff_served (builds member) grounded, ?_⟩
  · obtain ⟨other, among, a, held, name, entity, followed⟩ := located member
    obtain ⟨_, outer, g⟩ := all other among
    obtain ⟨_, _, r⟩ := g.resolves
    obtain ⟨root, source, start, stands, last, follows, atOwner⟩ :=
      Path.tables_of_follow r agree g.registered held name entity followed
    exact ⟨last, _, List.mem_map_of_mem among, root, source, start, stands, follows, atOwner⟩
  · intro rooted owner path member
    obtain ⟨other, among, a, held, name, entity, followed⟩ := located member
    obtain ⟨contained, outer, g⟩ := all other among
    obtain ⟨_, _, r⟩ := g.resolves
    exact Path.right_of_truthful r agree g.registered (builds member) (List.mem_map_of_mem among) held name entity
      followed fun _ => g.truthful agree (rooted _ contained)

/-- Paths of a plan that is built from one registry and uses each alias with one entity are rendered against the right
tables exactly when the generated joins that they follow serve them. No plan at all is left with an association that no
join covers, or without an open scope. -/
theorem compile_paths (registry : Registry) (d : Dialect) (p : Plan) :
    (∀ definitions query, Registry.build definitions = .ok registry → p.Built registry → p.Unambiguous →
      compile registry d p = .ok query →
        ∃ s, p.resolve registry = .ok s ∧ query.statement = .ofTokens d (s.tokens d false) ∧
          ∀ t outer, s.Encloses (t :: outer) →
            t.tokens d false <:+: s.tokens d false ∧ t.PathsPlaced registry d p outer) ∧
    ∀ e, compile registry d p = .error e ∨ compileCount registry d p = .error e →
      (∀ path, e ≠ .invalidPlan (.uncoveredPath path)) ∧ ∀ text, e ≠ .invalidPlan (.stated text) := by
  constructor
  · intro definitions query known built plain run
    obtain ⟨s, resolved, run⟩ := Except.bind_eq_ok.mp run
    cases run
    refine ⟨s, resolved, rfl, fun t outer encloses => ⟨encloses.rendered d, ?_⟩⟩
    obtain ⟨levels, chain, holds, _⟩ := encloses.levels (by decide) resolved
    obtain ⟨level, around, rfl, rfl, rfl⟩ := List.map_eq_cons_iff.mp chain
    exact holds.pathsPlaced d (Registry.tablesAgree_build known) built plain
  · intro e run
    have external : e.isInternal = false := run.elim external_of_compile external_of_compileCount
    refine ⟨fun path => ?_, fun text => ?_⟩
    all_goals
      rintro rfl
      cases external

theorem describes_task (name : String) : tracker.Describes (taskAs name).entity := rfl

theorem built_taskPath (name first : String) (rest : List String) (field : String) {path : Path}
    (run : ((taskAs name).navigate tracker first rest >>= (·.field field)) = .ok path) : path.Built tracker := by
  obtain ⟨p, navigated, run⟩ := Except.bind_eq_ok.mp run
  exact Alias.Makes.built (describes_task name) (.behind navigated run)

/-- Sibling tasks by their clients, where the client is not in an empty list. -/
def siblingTasksByClient : Plan := { siblingTasks with
  filters := siblingTasks.filters ++ [.inValues (taskPath "task" "parent" ["parent"] "name") [] true]
  orderings := [⟨taskPath "task" "parent" ["parent"] "name", .ascending, none⟩] }

theorem siblingTasks_inner_built : ∀ q ∈ siblingTasks.inner, q.Built tracker := by
  refine List.forall_mem_singleton.mpr (Plan.forall_contains.mpr ⟨⟨?_, nofun, nofun, ?_⟩, nofun⟩)
  · exact List.forall_mem_singleton.mpr (describes_task "other")
  · have client := built_taskPath "other" "parent" ["parent"] "name" rfl
    exact List.forall_mem_cons.mpr ⟨client, List.forall_mem_cons.mpr
      ⟨Alias.Makes.built (describes_task "other") .key,
        List.forall_mem_singleton.mpr (Alias.Makes.built (describes_task "task") .key)⟩⟩

theorem siblingTasksByClient_built : siblingTasksByClient.Built tracker := by
  refine Plan.forall_contains.mpr ⟨⟨?_, nofun, nofun, ?_⟩, siblingTasks_inner_built⟩
  · exact List.forall_mem_singleton.mpr (describes_task "task")
  · have title := built_taskPath "task" "parent" [] "title" rfl
    have client := built_taskPath "task" "parent" ["parent"] "name" rfl
    exact List.forall_mem_cons.mpr ⟨title, List.forall_mem_cons.mpr ⟨client, List.forall_mem_singleton.mpr client⟩⟩

theorem siblingTasksByClient_unambiguous : siblingTasksByClient.Unambiguous := by
  refine Plan.unambiguous_of_single "Task" (Plan.forall_contains.mpr ⟨by decide, ?_⟩)
  exact List.forall_mem_singleton.mpr (Plan.forall_contains.mpr ⟨by decide, nofun⟩)

theorem siblingTasksByClient_rooted : siblingTasksByClient.Rooted := by
  refine Plan.forall_contains.mpr ⟨by decide, ?_⟩
  exact List.forall_mem_singleton.mpr (Plan.forall_contains.mpr ⟨by decide, nofun⟩)

/-- The aliases of the columns that a query renders, and the paths that they are rendered for. -/
def Select.shownColumns (s : Select) : List (String × String) := s.columns.map fun (owner, path) => (owner, path.shown)

theorem compile_paths_siblingTasksByClient :
    ∃ query, compile tracker .postgres siblingTasksByClient = .ok query ∧ ∃ s t : Select,
      query.statement = .ofTokens .postgres (s.tokens .postgres false) ∧ s.Encloses [t, s] ∧
      s.shownColumns = [("task_parent", "task.parent.title"), ("task_parent_parent", "task.parent.parent.name")] ∧
      (∀ owner path, (owner, path) ∈ s.columns → path.Right tracker [s] owner) ∧
      t.shownColumns = [("other_parent_parent", "other.parent.parent.name"), ("other", "other.id"),
        ("task", "task.id")] ∧
      ∀ owner path, (owner, path) ∈ t.columns → path.Right tracker [t, s] owner := by
  have compiled : compile tracker .postgres siblingTasksByClient = .ok _ := rfl
  obtain ⟨s, resolved, statement, holds⟩ := (compile_paths tracker .postgres siblingTasksByClient).1 trackerDefinitions _
    rfl siblingTasksByClient_built siblingTasksByClient_unambiguous compiled
  cases resolved
  refine ⟨_, compiled, _, _, statement, .inner .whole List.mem_cons_self, rfl, ?_, rfl, ?_⟩
  · exact (holds _ _ .whole).2.right siblingTasksByClient_rooted
  · exact (holds _ _ (.inner .whole List.mem_cons_self)).2.right siblingTasksByClient_rooted

/-- Tasks by their clients, where a path in an empty list starts at an alias that is generated for another entity. -/
def tasksByClient : Plan where
  projections := [.expr (taskPath "task" "parent" [] "title")]
  sources := [taskAs "task"]
  joins := []
  filters := [.inValues (taskPath "task_parent" "parent" [] "title") [] true]
  groups := []
  havings := []
  orderings := [⟨taskPath "task" "parent" ["parent"] "name", .ascending, none⟩]
  offset := none
  limit := none
  distinct := false

theorem tasksByClient_built : tasksByClient.Built tracker := by
  refine Plan.forall_contains.mpr ⟨⟨?_, nofun, nofun, ?_⟩, nofun⟩
  · exact List.forall_mem_singleton.mpr (describes_task "task")
  · have title := built_taskPath "task" "parent" [] "title" rfl
    have sought := built_taskPath "task_parent" "parent" [] "title" rfl
    have client := built_taskPath "task" "parent" ["parent"] "name" rfl
    exact List.forall_mem_cons.mpr ⟨title, List.forall_mem_cons.mpr ⟨sought, List.forall_mem_singleton.mpr client⟩⟩

theorem tasksByClient_unambiguous : tasksByClient.Unambiguous :=
  Plan.unambiguous_of_single "Task" (Plan.forall_contains.mpr ⟨by decide, nofun⟩)

/-- A path from a task to its client is rendered against a second table of projects. -/
theorem compile_misplaces_path : Registry.build trackerDefinitions = .ok tracker ∧ tasksByClient.Built tracker ∧
    tasksByClient.Unambiguous ∧ ∃ query, compile tracker .postgres tasksByClient = .ok query ∧ ∃ s : Select,
      tasksByClient.resolve tracker = .ok s ∧ query.statement = .ofTokens .postgres (s.tokens .postgres false) ∧
        s.shownColumns = [("task_parent", "task.parent.title"), ("task_parent_parent", "task.parent.parent.name")] ∧
        (s.tables.map fun t => (t.name, t.table)) =
          [("task", "task"), ("task_parent", "project"), ("task_parent_parent", "project")] ∧
        ¬ ∀ owner path, (owner, path) ∈ s.columns → path.Right tracker [s] owner := by
  -- The alias that the path to the client is rendered behind stands for projects, which have no names.
  have absent : ∀ t ∈ ((tasksByClient.resolve tracker).toOption.getD default).tables, t.name = "task_parent_parent" →
      "name" ∉ t.source.entity.selectedColumns := by decide
  refine ⟨rfl, tasksByClient_built, tasksByClient_unambiguous, _, rfl,
    (tasksByClient.resolve tracker).toOption.getD default, rfl, rfl, rfl, rfl, fun right => ?_⟩
  obtain ⟨last, ⟨s, among, root, source, _, _, follows, atOwner⟩, column⟩ :=
    right "task_parent_parent" _ (.tail _ (.head _))
  cases List.mem_singleton.mp among
  exact absent last (follows.mem source) atOwner column

end EntityMapper
