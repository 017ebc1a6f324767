import EntityMapper.Proofs.Compile.Layouts
import EntityMapper.Proofs.Compile.PathColumns

namespace EntityMapper

namespace Plan

/-- The aliases that a query introduces, in order. -/
def introduced (p : Plan) : List Alias := p.sources ++ p.joins.map (·.target)

/-- The aliases that the joins of a query start at. -/
def owners (p : Plan) : List Alias := (p.joins.filterMap (·.association)).map (·.owner)

/-- The entities that a query selects, each under its alias. -/
def selected (p : Plan) : List Alias := p.projections.filterMap (·.source?)

/-- Whatever a query selects as an entity and whatever its joins start at is an alias that the query introduces, for the
same entity. -/
def KeepsAliases (p : Plan) : Prop := ∀ a ∈ p.owners ++ p.selected, a ∈ p.introduced

/-- Each alias that a query introduces, joins from or selects is one entity, and none of the selected ones is an alias
of a generated join. -/
structure AliasesApart (p : Plan) (generated : List GeneratedJoin) : Prop where
  single : ∀ a ∈ p.introduced ++ (p.owners ++ p.selected), ∀ b ∈ p.introduced ++ (p.owners ++ p.selected),
    a.name = b.name → a.entity = b.entity
  own : ∀ a ∈ p.selected, ∀ j ∈ generated, j.target.name ≠ a.name

/-- Whatever a query looks for in an empty list starts, where it follows associations, at an alias that the query
introduces for the path's root entity. -/
def SeeksFromAliases (p : Plan) : Prop := ∀ path ∈ p.sought, path.hops ≠ [] →
  ∃ a ∈ p.introduced, a.name = path.root ∧ a.entity.name = path.rootEntity

theorem sources_declared (p : Plan) : p.declared.map (·.source) = p.introduced := by
  rw [declared, introduced, List.map_append, List.map_map, List.map_map]
  congr 1
  exact List.map_id _

theorem mem_introduced {p : Plan} {a : Alias} : a ∈ p.introduced ↔ ∃ t ∈ p.declared, t.source = a := by
  rw [← p.sources_declared, List.mem_map]

theorem mem_owners {p : Plan} {a : Alias} (member : a ∈ p.owners) :
    ∃ j ∈ p.joins, ∃ path, j.association = some path ∧ path.owner = a := by
  obtain ⟨path, listed, own⟩ := List.mem_map.mp member
  obtain ⟨j, inside, follows⟩ := List.mem_filterMap.mp listed
  exact ⟨j, inside, path, follows, own⟩

end Plan

/-- A table that is joined along an association is related by a column of its own to a column of the table under the
owner's alias, which stands for an entity with this association. -/
def FromTable.Related (tables : List FromTable) (t : FromTable) : Prop :=
  ∀ owner a, t.link = some (owner, a) → a.targetColumn ∈ t.source.entity.selectedColumns ∧
    ∃ o ∈ tables, o.name = owner ∧ o.source.entity.association? a.name = some a ∧
      a.ownerColumn ∈ o.source.entity.selectedColumns

variable {registry : Registry}

theorem FromTable.Faithful.related {tables : List FromTable} {t : FromTable} (agree : registry.ColumnsAgree)
    (described : ∀ o ∈ tables, registry.Describes o.source.entity) (faithful : t.Faithful registry tables) :
    t.Related tables := by
  intro owner a link
  obtain ⟨⟨target, _⟩, o, member, name, own⟩ := faithful owner a link
  obtain ⟨onOwner, onTarget⟩ := agree _ (described o member) a (List.mem_of_find?_eq_some own) _ target
  exact ⟨onTarget, o, member, name, own, onOwner⟩

/-- A join starts at the alias of a table that the query names itself. -/
theorem Scope.Opens.owners {outer : List Scope} {p : Plan} {scope : Scope} (opens : scope.Opens registry outer p) :
    ∀ a ∈ p.owners, ∃ t ∈ p.declared, t.name = a.name := by
  intro a member
  obtain ⟨j, inside, path, follows, rfl⟩ := Plan.mem_owners member
  have table : .ofJoin j.target j.link ∈ p.declared := List.mem_append_right _ (List.mem_map_of_mem inside)
  obtain ⟨before, after, split⟩ := List.append_of_mem table
  have ordered := opens.introduces.ordered before _ (after ++ scope.generated.map .ofGenerated)
    (by rw [split, List.append_assoc, List.cons_append]) path.owner.name path.association
    (by rw [FromTable.ofJoin, Join.link, follows]; rfl)
  obtain ⟨t, earlier, name⟩ := List.mem_map.mp ordered
  exact ⟨t, split ▸ List.mem_append_left _ earlier, name⟩

theorem selected_of_checkProjections {scope : Scope} {role : Role} {projections : List Projection}
    (run : checkProjections scope role projections = .ok ()) :
    ∀ a ∈ projections.filterMap (·.source?), a.name ∈ scope.names := by
  intro a member
  unfold checkProjections at run
  split at run
  · cases run
  split at run
  · cases run
  case h_2 none =>
    have known := List.find?_eq_none.mp none a member
    exact Scope.has_iff.mp (by simpa using known)

/-- What is fetched is the target of a join, along the association of this join. -/
theorem fetchJoins_joins {owners : List String} {js : List Join} {fs : List FetchJoin}
    (run : fetchJoins owners js = .ok fs) :
    ∀ f ∈ fs, ∃ j ∈ js, j.target = f.target ∧ j.link = some (f.owner, f.association) := by
  induction js generalizing owners fs with
  | nil =>
    cases run
    exact fun _ none => absurd none List.not_mem_nil
  | cons j rest ih =>
    unfold fetchJoins at run
    split at run
    case h_1 => cases run
    case h_2 path follows =>
      split at run
      · cases run
      split at run
      · cases run
      obtain ⟨others, later, run⟩ := Except.bind_eq_ok.mp run
      cases run
      refine List.forall_mem_cons.mpr ⟨⟨j, List.mem_cons_self, rfl, by rw [Join.link, follows]; rfl⟩, fun f member => ?_⟩
      obtain ⟨other, inside, fetched⟩ := ih later f member
      exact ⟨other, List.mem_cons_of_mem _ inside, fetched⟩

theorem Plan.fetches_joins {p : Plan} {role : Role} {fs : List FetchJoin} (run : p.fetches role = .ok fs) :
    ∀ f ∈ fs, FromTable.ofJoin f.target (some (f.owner, f.association)) ∈ p.declared := by
  have joined {owners : List String} (run : fetchJoins owners (p.joins.filter (·.fetch)) = .ok fs) :
      ∀ f ∈ fs, FromTable.ofJoin f.target (some (f.owner, f.association)) ∈ p.declared := by
    intro f member
    obtain ⟨j, inside, target, link⟩ := fetchJoins_joins run f member
    rw [← target, ← link]
    exact List.mem_append_right _ (List.mem_map_of_mem (List.mem_of_mem_filter inside))
  simp only [Plan.fetches] at run
  split at run
  · cases run
    exact fun _ none => absurd none List.not_mem_nil
  · split at run
    · cases run
    · cases run
    · exact joined run
    · exact joined run

/-- Every alias of a query stands for one entity: the tables store the entities of their aliases, a selected entity is
that of its alias, what is fetched is joined along the association that it is fetched for, and the joins of the query
relate columns of the tables under their aliases. -/
structure Select.AliasesKept (registry : Registry) (s : Select) : Prop where
  distinct : (s.tables.map FromTable.name).Nodup
  stands : ∀ t ∈ s.tables, t.StandsFor registry t.source.entity.name
  selected : ∀ a, .entity a ∈ s.outputs → ∃ t ∈ s.tables, t.source = a
  fetched : ∀ f ∈ s.fetches, .ofJoin f.target (some (f.owner, f.association)) ∈ s.tables
  related : ∀ j ∈ s.joins, (FromTable.ofJoin j.target j.link).Related s.tables

/-- Also the generated joins of a query relate columns of the tables under their aliases, and every path that it renders
is a column of the right table. -/
structure Select.ColumnsKept (registry : Registry) (outer : List Select) (s : Select) : Prop where
  generated : ∀ j ∈ s.generated, (FromTable.ofGenerated j).Related s.tables
  columns : ∀ owner path, (owner, path) ∈ s.columns → path.Right registry (s :: outer) owner

namespace Select.Resolves

variable {outer : List Scope} {role : Role} {p : Plan} {scope : Scope} {s : Select}

theorem mem_tables (r : Resolves registry outer role p scope s) {t : FromTable} :
    t ∈ s.tables ↔ t ∈ p.declared ∨ ∃ j ∈ s.generated, .ofGenerated j = t := by
  rw [r.tables, r.generated, List.mem_append, List.mem_map]

/-- The aliases that a query introduces are told apart by their names. -/
theorem introduced_unique (r : Resolves registry outer role p scope s) :
    ∀ t ∈ p.declared, ∀ u ∈ p.declared, t.name = u.name → t = u := fun _ first _ second =>
  List.inj_on_of_nodup_map r.aliases_nodup (r.mem_tables.mpr (.inl first)) (r.mem_tables.mpr (.inl second))

/-- An accepted query keeps its aliases exactly when each of them is one entity wherever it is introduced, joined from
or selected, and none that is selected belongs to a generated join. -/
theorem keepsAliases_iff (r : Resolves registry outer role p scope s) :
    p.KeepsAliases ↔ p.AliasesApart s.generated := by
  constructor
  · intro keeps
    have all : ∀ a ∈ p.introduced ++ (p.owners ++ p.selected), ∃ t ∈ p.declared, t.source = a :=
      List.forall_mem_append.mpr ⟨fun a member => Plan.mem_introduced.mp member,
        fun a member => Plan.mem_introduced.mp (keeps a member)⟩
    refine ⟨fun a first b second name => ?_, fun a member j inside name => ?_⟩
    · obtain ⟨t, declared, rfl⟩ := all a first
      obtain ⟨u, also, rfl⟩ := all b second
      rw [r.introduced_unique t declared u also name]
    · obtain ⟨t, declared, rfl⟩ := all a (List.mem_append_right _ (List.mem_append_right _ member))
      have distinct := r.aliases_nodup
      rw [r.tables, ← r.generated, List.map_append] at distinct
      exact List.disjoint_of_nodup_append distinct (List.mem_map_of_mem declared)
        (List.mem_map.mpr ⟨_, List.mem_map_of_mem inside, name⟩)
  · intro apart
    have introduced {a : Alias} (member : a ∈ p.owners ++ p.selected) {t : FromTable} (declared : t ∈ p.declared)
        (name : t.name = a.name) : a ∈ p.introduced := by
      have known := Plan.mem_introduced.mpr ⟨t, declared, rfl⟩
      have entity := apart.single t.source (List.mem_append_left _ known) a (List.mem_append_right _ member) name
      have same : t.source = a := by
        rw [show t.source = ⟨t.name, t.source.entity⟩ from rfl, name, entity]
      exact same ▸ known
    intro a member
    rcases List.mem_append.mp member with owner | selected
    · obtain ⟨t, declared, name⟩ := (Scope.ofPlan_opens r.opened).owners a owner
      exact introduced member declared name
    · have named := selected_of_checkProjections r.projected a selected
      rw [r.introduces.names] at named
      obtain ⟨t, listed, name⟩ := List.mem_map.mp named
      rcases r.mem_tables.mp listed with declared | ⟨j, inside, rfl⟩
      · exact introduced member declared name
      · exact absurd name (apart.own a selected j inside)

variable (r : Resolves registry outer role p scope s) (registered : p.Registered registry)

include r registered

/-- The tables that a query with kept aliases names itself are joined truthfully. -/
theorem truthful_declared (keeps : p.KeepsAliases) : Truthful registry p.declared := by
  refine ⟨fun t member => (registered.described t member).1,
    registered.faithful (Scope.ofPlan_opens r.opened) fun j listed path own o declared name => ?_⟩
  have owner : path.owner ∈ p.owners := List.mem_map_of_mem (List.mem_filterMap.mpr ⟨j, listed, own⟩)
  obtain ⟨t, also, source⟩ := Plan.mem_introduced.mp (keeps _ (List.mem_append_left _ owner))
  rw [← source] at name ⊢
  rw [r.introduced_unique o declared t also name]

theorem aliasesKept (agree : registry.TablesAgree) (columns : registry.ColumnsAgree) (keeps : p.KeepsAliases) :
    s.AliasesKept registry := by
  have stands := r.stands agree registered
  have declares {t : FromTable} (declared : t ∈ p.declared) : t ∈ s.tables := r.mem_tables.mpr (.inl declared)
  refine ⟨r.aliases_nodup, stands, fun a output => ?_, fun f member => ?_, fun j member => ?_⟩
  · obtain ⟨item, listed, run⟩ := Except.mem_of_mapM ((outputsOfProjections_eq _).symm.trans r.outputs) output
    have source : item.source? = some a := by
      cases item with
      | entity b =>
        cases run
        rfl
      | expr e =>
        obtain ⟨_, _, run⟩ := Except.bind_eq_ok.mp run
        cases run
    have selected : a ∈ p.selected := List.mem_filterMap.mpr ⟨item, listed, source⟩
    obtain ⟨t, declared, own⟩ := Plan.mem_introduced.mp (keeps a (List.mem_append_right _ selected))
    exact ⟨t, declares declared, own⟩
  · obtain ⟨fetched, atFetches, same⟩ := r.fetches
    rw [same] at member
    split at member
    · exact absurd member List.not_mem_nil
    · exact declares (Plan.fetches_joins atFetches f member)
  · have faithful := (r.truthful_declared registered keeps).faithful _ (r.mem_declared member)
    exact (faithful.mono fun _ => declares).related columns fun o inside =>
      Registry.describes_of_describe (stands o inside).1

theorem truthful_tables (kept : role ≠ .counted) (agree : registry.TablesAgree) (keeps : p.KeepsAliases)
    (seeks : p.SeeksFromAliases) : Truthful registry s.tables := by
  refine r.truthful kept agree registered (r.truthful_declared registered keeps) fun path sought _ navigates => ?_
  obtain ⟨a, introduced, name, entity⟩ := seeks path sought navigates
  obtain ⟨t, declared, rfl⟩ := Plan.mem_introduced.mp introduced
  exact ⟨t, declared, name, entity⟩

end Select.Resolves

/-- A rendered path whose query, and no other, keeps its aliases is a column of the right table: from an alias of an
enclosing query no association is followed. -/
theorem Level.Resolved.columnsKept {p : Plan} {level : Level} {around : List Level}
    (resolved : Resolved registry p (level :: around)) (built : p.Built registry) (agree : registry.TablesAgree)
    (columns : registry.ColumnsAgree) (keeps : level.plan.KeepsAliases) (seeks : level.plan.SeeksFromAliases) :
    level.select.ColumnsKept registry (around.map (·.select)) := by
  obtain ⟨contained, role, kept, r⟩ := resolved level around List.suffix_rfl
  have registered := built _ contained
  have truthful := r.truthful_tables registered kept agree keeps seeks
  refine ⟨fun j member => ?_, fun owner path member => ?_⟩
  · exact (truthful.faithful _ (r.mem_tables.mpr (.inr ⟨j, member, rfl⟩))).related columns truthful.described
  · obtain ⟨⟨inCondition, used⟩, located⟩ := r.columns member
    have made := registered.paths path (Plan.mem_paths_of_pathUses used)
    by_cases navigates : path.hops = []
    · obtain ⟨scope, inside, a, held, name, entity, followed⟩ := Scope.locate_ok located
      rw [← List.map_cons] at inside
      obtain ⟨other, among, rfl⟩ := List.mem_map.mp inside
      obtain ⟨within, _, _, _, theirs⟩ := resolved.of_mem among
      exact Path.right_of_truthful theirs agree (built _ within) made (List.mem_map_of_mem among) held name entity
        followed fun hops => absurd navigates hops
    · obtain ⟨root, _⟩ := (Scope.ofPlan_opens r.opened).follows _ used navigates
      obtain ⟨a, held, name, entity, followed⟩ := Scope.locate_own root located
      exact Path.right_of_truthful r agree registered made List.mem_cons_self held name entity followed fun _ => truthful

/-- Entities are read from a row as what the tables store that their columns come from, and what is fetched as what is
joined along its association. -/
structure Layout.Labelled (registry : Registry) (d : Dialect) (l : Layout) (s : Select) : Prop where
  items : ∀ item ∈ l.items, ∀ e, item.kind = .entity e → ∃ t ∈ s.tables, t.source.entity = e ∧
    t.StandsFor registry e.name ∧ within (s.selectList d) item.range = t.source.columns
  fetches : ∀ b ∈ l.fetches, ∃ t ∈ s.tables, t.source = b.target ∧ t.link = some (b.owner, b.association) ∧
    t.StandsFor registry b.target.entity.name ∧ within (s.selectList d) b.range = t.source.columns

/-- Two relations between the same lists hold together of an item and its partner. -/
theorem forall₂_partner {α β : Type} {R S : α → β → Prop} {xs : List α} {ys : List β} (first : List.Forall₂ R xs ys)
    (second : List.Forall₂ S xs ys) : ∀ x ∈ xs, ∃ y ∈ ys, R x y ∧ S x y := by
  induction first with
  | nil => exact fun _ none => absurd none List.not_mem_nil
  | cons own _ ih =>
    obtain _ | ⟨also, later⟩ := second
    refine List.forall_mem_cons.mpr ⟨⟨_, List.mem_cons_self, own, also⟩, fun x member => ?_⟩
    obtain ⟨y, inside, both⟩ := ih later x member
    exact ⟨y, List.mem_cons_of_mem _ inside, both⟩

theorem Select.Resolves.labelled {role : Role} {outer : List Scope} {p : Plan} {scope : Scope} {s : Select}
    (r : Resolves registry outer role p scope s) (d : Dialect) (asked : role ≠ .existence)
    (keeps : s.AliasesKept registry) : (Layout.ofProjections p.projections s.fetches).Labelled registry d s := by
  have covers := r.layout_covers d asked
  refine ⟨fun item member e kind => ?_, fun b member => ?_⟩
  · have outputs := Except.mapM_eq_ok.mp ((outputsOfProjections_eq _).symm.trans r.outputs)
    rw [← Layout.projections_place 0 p.projections, List.forall₂_map_left_iff] at outputs
    obtain ⟨o, listed, columns, run⟩ := forall₂_partner covers.items outputs item member
    rw [Layout.kinds_place 0 p.projections item member] at kind
    cases projection : item.projection with
    | expr own =>
      rw [projection] at kind
      cases kind
    | entity a =>
      rw [projection] at kind run
      cases kind
      cases run
      obtain ⟨t, inside, rfl⟩ := keeps.selected a listed
      exact ⟨t, inside, rfl, keeps.stands t inside, columns⟩
  · have fetched : b.toFetchJoin ∈ s.fetches := by
      rw [← Layout.fetches_bind (Layout.visibleWidth p.projections) s.fetches]
      exact List.mem_map_of_mem member
    have joined := keeps.fetched _ fetched
    exact ⟨_, joined, rfl, rfl, keeps.stands _ joined, covers.fetches b member⟩

/-- A query is resolved from a plan of its own, whatever queries are around it. -/
def Plan.ResolvesTo (registry : Registry) (p : Plan) (s : Select) : Prop :=
  ∃ outer role, role ≠ .counted ∧ Select.ofPlan registry outer role p = .ok s

/-- Compiling checks of an alias that it is there, of a selected entity and of a join's owner not that it stands for
this entity. The queries that keep their aliases are those that use each alias with one entity; in them every column
belongs to the table under its alias, and the layout reads entities as what these tables store. -/
theorem compile_aliases {definitions : List Definition} {d : Dialect} {p : Plan} {query : CompiledQuery}
    (known : Registry.build definitions = .ok registry) (built : p.Built registry)
    (run : compile registry d p = .ok query) :
    ∃ s, p.resolve registry = .ok s ∧ query.statement = .ofTokens d (s.tokens d false) ∧
      (∀ t outer, s.Encloses (t :: outer) → ∃ q, p.Contains q ∧ q.ResolvesTo registry t ∧ (outer = [] → q = p) ∧
        (q.KeepsAliases ↔ q.AliasesApart t.generated) ∧
        (q.KeepsAliases → t.AliasesKept registry ∧ (q.SeeksFromAliases → t.ColumnsKept registry outer))) ∧
      (p.KeepsAliases → query.layout.Labelled registry d s) := by
  have agree := Registry.tablesAgree_build known
  have columns := Registry.columnsAgree_build known
  obtain ⟨s, resolved, run⟩ := Except.bind_eq_ok.mp run
  cases run
  refine ⟨s, resolved, rfl, fun t outer encloses => ?_, fun keeps => ?_⟩
  · obtain ⟨levels, chain, holds, last⟩ := encloses.levels (by decide) resolved
    obtain ⟨level, around, rfl, rfl, rfl⟩ := List.map_eq_cons_iff.mp chain
    obtain ⟨contained, role, kept, r⟩ := holds level around List.suffix_rfl
    refine ⟨level.plan, contained, ⟨_, role, kept, Select.ofPlan_eq_ok.mpr ⟨_, r⟩⟩, fun alone => ?_, r.keepsAliases_iff,
      fun keeps => ⟨r.aliasesKept (built _ contained) agree columns keeps, ?_⟩⟩
    · obtain ⟨inner, scope, split⟩ := last
      rw [List.map_eq_nil_iff.mp alone, ← List.nil_append [level]] at split
      obtain ⟨_, same⟩ := List.append_inj' split rfl
      cases same
      rfl
    · exact fun seeks => holds.columnsKept built agree columns keeps seeks
  · obtain ⟨scope, r⟩ := Select.ofPlan_eq_ok.mp resolved
    exact r.labelled d (by decide) (r.aliasesKept (built p .self) agree columns keeps)

def projectAs (name : String) : Alias := ⟨name, (tracker.find? "Project").getD default⟩

def clientAs (name : String) : Alias := ⟨name, (tracker.find? "Client").getD default⟩

/-- Sibling tasks, joined with their projects. -/
def siblingTasksJoined : Plan := { siblingTasks with
  joins := [⟨.inner, projectAs "project", ((taskAs "task").association tracker "parent").toOption, none, true⟩] }

theorem siblingTasksJoined_built : siblingTasksJoined.Built tracker := by
  refine Plan.forall_contains.mpr ⟨⟨?_, ?_, ?_, ?_⟩, siblingTasks_inner_built⟩
  · exact List.forall_mem_singleton.mpr (describes_task "task")
  · exact List.forall_mem_singleton.mpr (rfl : tracker.describe "Project" = .ok (projectAs "project").entity)
  · refine List.forall_mem_singleton.mpr fun path own => ?_
    have followed : (taskAs "task").association tracker "parent" = .ok path := by
      cases own
      rfl
    exact .association (describes_task "task") followed
  · exact List.forall_mem_singleton.mpr (built_taskPath "task" "parent" [] "title" rfl)

theorem compile_aliases_siblingTasksJoined :
    ∃ query s, compile tracker .postgres siblingTasksJoined = .ok query ∧
      siblingTasksJoined.resolve tracker = .ok s ∧ siblingTasksJoined.KeepsAliases ∧
      (s.tables.map fun t => (t.name, t.table)) = [("task", "task"), ("project", "project")] ∧
      s.AliasesKept tracker ∧ s.ColumnsKept tracker [] ∧ query.layout.Labelled tracker .postgres s := by
  have compiled : compile tracker .postgres siblingTasksJoined = .ok _ := rfl
  have keeps : siblingTasksJoined.KeepsAliases :=
    (by decide : ∀ a ∈ siblingTasksJoined.owners ++ siblingTasksJoined.selected, a ∈ siblingTasksJoined.introduced)
  obtain ⟨s, resolved, _, queries, layout⟩ :=
    compile_aliases (rfl : Registry.build trackerDefinitions = .ok tracker) siblingTasksJoined_built compiled
  obtain ⟨q, _, _, whole, _, kept⟩ := queries s [] .whole
  cases whole rfl
  cases resolved
  exact ⟨_, _, compiled, rfl, keeps, rfl, (kept keeps).1, (kept keeps).2 nofun, layout keeps⟩

/-- Tasks that are selected as clients. -/
def tasksAsClients : Plan := { siblingTasks with projections := [.entity (clientAs "task")], filters := [] }

/-- The name of a client is selected from the table of tasks, which has no such column, and read as a client. -/
theorem compile_mislabels_alias : Registry.build trackerDefinitions = .ok tracker ∧ tasksAsClients.Built tracker ∧
    ∃ query s, compile tracker .postgres tasksAsClients = .ok query ∧ tasksAsClients.resolve tracker = .ok s ∧
      query.statement = .ofTokens .postgres (s.tokens .postgres false) ∧
      ¬tasksAsClients.KeepsAliases ∧ (s.tables.map fun t => (t.name, t.table)) = [("task", "task")] ∧
      s.selectList .postgres = [columnTokens "task" "id", columnTokens "task" "name"] ∧
      (∀ t ∈ s.tables, "name" ∉ t.source.entity.selectedColumns) ∧ ¬query.layout.Labelled tracker .postgres s := by
  have built : tasksAsClients.Built tracker := by
    refine Plan.forall_contains.mpr ⟨⟨?_, nofun, nofun, nofun⟩, nofun⟩
    exact List.forall_mem_singleton.mpr (describes_task "task")
  have keeps : ¬∀ a ∈ tasksAsClients.owners ++ tasksAsClients.selected, a ∈ tasksAsClients.introduced := by decide
  refine ⟨rfl, built, _, _, rfl, rfl, rfl, keeps, rfl, rfl, by decide, fun labelled => ?_⟩
  obtain ⟨t, inside, entity, _⟩ := labelled.items _ (.head _) _ rfl
  cases List.mem_singleton.mp inside
  exact absurd entity (by decide)

end EntityMapper
