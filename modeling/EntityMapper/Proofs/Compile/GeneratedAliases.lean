import EntityMapper.Proofs.Compile.AliasEntities

namespace EntityMapper

namespace Plan

/-- The alias starts with the words that a join would be named by if it were generated for a path of the query: an alias
that the query introduces and an association of the path. -/
def Derives (q : Plan) (name : String) : Prop :=
  ∃ a ∈ q.introduced, ∃ path ∈ q.paths, ∃ hop ∈ path.hops, s!"{a.name}_{hop.name}".toList <+: name.toList

/-- The paths that are never looked up: those in the order of counted rows and those that are looked for in empty
lists. -/
def unchecked (q : Plan) (role : Role) : List Path :=
  (q.conditions.flatMap Predicate.sought ++ if role = .counted then q.orderings.map (·.expr) else []).filterMap Expr.path?

theorem Contains.trans {p q r : Plan} (outer : p.Contains q) (inner : q.Contains r) : p.Contains r := by
  induction inner with
  | self => exact outer
  | inner _ member ih => exact .inner ih member

theorem mentions_selected {q : Plan} {a : Alias} (member : a ∈ q.selected) : (a.name, a.entity.name) ∈ q.mentions := by
  simp only [mentions, List.mem_append]
  exact .inl (.inr (List.mem_map_of_mem member))

end Plan

variable {registry : Registry}

namespace Scope

/-- The aliases of generated joins. -/
def invented (s : Scope) : List String := s.generated.map (·.target.name)

variable {outer : List Scope} {s after : Scope} {q : Plan} {name : String}

theorem prefix_freshName (taken : List String) (base : String) : base.toList <+: (freshName taken base).toList := by
  unfold freshName
  split
  case isTrue =>
    cases found : ((List.range taken.length).map fun n => s!"{base}_{n + 1}").find? fun name => !taken.contains name with
    | none => exact List.prefix_rfl
    | some name =>
      obtain ⟨n, _, same⟩ := List.mem_map.mp (List.mem_of_find?_eq_some found)
      rw [Option.getD_some, ← same, String.toList_append, String.toList_append, List.append_assoc]
      exact List.prefix_append _ _
  case isFalse => exact List.prefix_rfl

/-- The names of a scope are those that its query introduces, and those of generated joins. -/
theorem Opens.names (opens : s.Opens registry outer q) : s.names = q.introduced.map (·.name) ++ s.invented := by
  rw [opens.introduces.names, List.map_append, ← q.sources_declared, List.map_map, List.map_map]
  rfl

theorem Opens.mem_names (opens : s.Opens registry outer q) :
    name ∈ s.names ↔ name ∈ q.introduced.map (·.name) ∨ name ∈ s.invented := by
  rw [opens.names, List.mem_append]

theorem Opens.invented_notMem (opens : s.Opens registry outer q) :
    ∀ name ∈ q.introduced.map (·.name), name ∉ s.invented := by
  have distinct := opens.introduces.distinct
  rw [opens.names] at distinct
  exact fun name introduced => List.disjoint_of_nodup_append distinct introduced

/-- Covering a path names nothing but what derives from the aliases of the query. -/
theorem cover_derives {path : Path} (listed : path ∈ q.paths) {inCondition : Bool} {hops : List Association}
    (among : ∀ hop ∈ hops, hop ∈ path.hops) {current : String} {tables : List FromTable}
    (known : ∀ name ∈ s.names, name ∈ q.introduced.map (·.name) ∨ q.Derives name)
    (holds : s.Introduces outer tables) (source : current ∈ s.names)
    (run : cover registry outer path inCondition hops current s = .ok after) :
    ∀ name ∈ after.names, name ∈ q.introduced.map (·.name) ∨ q.Derives name := by
  induction hops generalizing current s tables with
  | nil =>
    cases run
    exact known
  | cons hop rest ih =>
    obtain ⟨own, others⟩ := List.forall_mem_cons.mp among
    unfold cover at run
    cases reached : s.hop? current hop.name with
    | some next =>
      rw [reached] at run
      exact ih others known holds (holds.mem_of_hop? reached) run
    | none =>
      rw [reached] at run
      dsimp only at run
      split at run
      · cases run
      split at run
      · cases run
      obtain ⟨target, _, run⟩ := Except.bind_eq_ok.mp run
      have fresh := freshName_notMem (s.taken outer) s!"{current}_{hop.name}"
      have start := prefix_freshName (s.taken outer) s!"{current}_{hop.name}"
      generalize freshName (s.taken outer) s!"{current}_{hop.name}" = name at run fresh start
      have added : Adds outer s _ (s.generate current hop ⟨name, target⟩) := generate_adds source fresh
      have derives : q.Derives name := by
        rcases known current source with named | ⟨a, introduced, path', listed', hop', among', before⟩
        · obtain ⟨a, introduced, rfl⟩ := List.mem_map.mp named
          exact ⟨a, introduced, path, listed, hop, own, start⟩
        · refine ⟨a, introduced, path', listed', hop', among', before.trans (List.IsPrefix.trans ?_ start)⟩
          rw [String.toList_append, String.toList_append, List.append_assoc]
          exact List.prefix_append _ _
      have names := added.names
      refine ih others ?_ (holds.add added) ?_ run
      · rw [names]
        exact List.forall_mem_append.mpr ⟨known, List.forall_mem_singleton.mpr (.inr derives)⟩
      · rw [names]
        exact List.mem_append_right _ List.mem_cons_self

theorem coverPath_derives {path : Path} (listed : path ∈ q.paths) {inCondition : Bool} {tables : List FromTable}
    (known : ∀ name ∈ s.names, name ∈ q.introduced.map (·.name) ∨ q.Derives name) (holds : s.Introduces outer tables)
    (run : coverPath registry outer s path inCondition = .ok after) :
    ∀ name ∈ after.names, name ∈ q.introduced.map (·.name) ∨ q.Derives name := by
  unfold coverPath at run
  split at run
  · cases run
    exact known
  split at run
  case isTrue declared => exact cover_derives listed (fun _ => id) known holds (has_iff.mp declared) run
  split at run
  · cases run
  · cases run

theorem coverPaths_derives {uses : List (Path × Bool)} (listed : ∀ use ∈ uses, use.1 ∈ q.paths)
    {tables : List FromTable} (known : ∀ name ∈ s.names, name ∈ q.introduced.map (·.name) ∨ q.Derives name)
    (holds : s.Introduces outer tables)
    (run : uses.foldlM (fun s (path, inCondition) => coverPath registry outer s path inCondition) s = .ok after) :
    ∀ name ∈ after.names, name ∈ q.introduced.map (·.name) ∨ q.Derives name := by
  induction uses generalizing s tables with
  | nil =>
    cases run
    exact known
  | cons use rest ih =>
    obtain ⟨own, others⟩ := List.forall_mem_cons.mp listed
    rw [List.foldlM_cons] at run
    obtain ⟨next, covered, run⟩ := Except.bind_eq_ok.mp run
    obtain ⟨js, grown, _⟩ := coverPath_generates holds covered
    exact ih others (coverPath_derives own known holds covered) (grown.introduces holds) run

/-- Generated joins are named by an alias of the query and an association of one of its paths. -/
theorem ofPlan_derives (run : ofPlan registry outer q = .ok s) : ∀ name ∈ s.invented, q.Derives name := by
  have opens := ofPlan_opens run
  unfold ofPlan at run
  split at run
  · cases run
  obtain ⟨sourced, sources, run⟩ := Except.bind_eq_ok.mp run
  obtain ⟨joined, joins, run⟩ := Except.bind_eq_ok.mp run
  obtain ⟨holds, _, _⟩ := introduces_declared sources joins
  have known : ∀ name ∈ joined.names, name ∈ q.introduced.map (·.name) ∨ q.Derives name := fun name member => by
    rw [holds.names] at member
    rw [← q.sources_declared, List.map_map]
    exact .inl member
  have paths : ∀ use ∈ q.pathUses, use.1 ∈ q.paths := fun use member => Plan.mem_paths_of_pathUses member
  intro name member
  have covered := coverPaths_derives paths known holds run name (opens.mem_names.mpr (.inr member))
  exact covered.resolve_left fun introduced => opens.invented_notMem name introduced member

theorem declare_repeated {a : Alias} (run : declare outer s a = .error (.invalidPlan (.repeatedAlias name))) :
    a.name = name ∧ (name ∈ s.names ∨ ∃ o ∈ outer, name ∈ o.names) := by
  unfold declare at run
  split at run
  case isTrue known =>
    cases run
    rw [Bool.or_eq_true, has_iff, any_has] at known
    exact ⟨rfl, known⟩
  case isFalse => cases run

theorem declareJoin_repeated {j : Join} (run : declareJoin outer s j = .error (.invalidPlan (.repeatedAlias name))) :
    j.target.name = name ∧ (name ∈ s.names ∨ ∃ o ∈ outer, name ∈ o.names) := by
  unfold declareJoin at run
  split at run
  · dsimp only at run
    split at run
    · cases run
    split at run
    · cases run
    split at run
    · cases run
    rcases Except.bind_eq_error run with failed | ⟨_, _, run⟩
    · exact declare_repeated failed
    · cases run
  · split at run
    · cases run
    · exact declare_repeated run

/-- Covering a path repeats no alias. -/
theorem cover_fresh {path : Path} {inCondition : Bool} {hops : List Association} {current : String} :
    cover registry outer path inCondition hops current s ≠ .error (.invalidPlan (.repeatedAlias name)) := by
  intro run
  induction hops generalizing current s with
  | nil => cases run
  | cons hop rest ih =>
    unfold cover at run
    cases reached : s.hop? current hop.name with
    | some next =>
      rw [reached] at run
      exact ih run
    | none =>
      rw [reached] at run
      dsimp only at run
      split at run
      · cases run
      split at run
      · cases run
      rcases Except.bind_eq_error run with failed | ⟨_, _, run⟩
      · cases Registry.describe_error failed
      · exact ih run

theorem coverPath_fresh {path : Path} {inCondition : Bool} :
    coverPath registry outer s path inCondition ≠ .error (.invalidPlan (.repeatedAlias name)) := by
  intro run
  unfold coverPath at run
  split at run
  · cases run
  split at run
  · exact cover_fresh run
  split at run
  · cases run
  · cases run

/-- A query is refused for a repeated alias that it introduces behind another one of this name, or inside a query that
has an alias of this name. -/
theorem ofPlan_repeated (run : ofPlan registry outer q = .error (.invalidPlan (.repeatedAlias name))) :
    ∃ before a after, q.introduced = before ++ a :: after ∧ a.name = name ∧
      (name ∈ before.map (·.name) ∨ ∃ o ∈ outer, name ∈ o.names) := by
  unfold ofPlan at run
  split at run
  · cases run
  have names (p : Plan) : p.declared.map FromTable.name = p.introduced.map (·.name) := by
    rw [← p.sources_declared, List.map_map]
    rfl
  rcases Except.bind_eq_error run with failed | ⟨sourced, sources, run⟩
  · obtain ⟨before, a, after, t, split, passed, failed⟩ := Except.foldlM_error_split failed
    obtain ⟨same, known⟩ := declare_repeated failed
    have holds := (introduces_declared (p := { q with sources := before, joins := [] }) passed rfl).1
    refine ⟨before, a, after ++ q.joins.map (·.target), ?_, same, known.imp_left fun member => ?_⟩
    · rw [Plan.introduced, split, List.append_assoc, List.cons_append]
    · rw [holds.names, names] at member
      rwa [Plan.introduced, List.map_nil, List.append_nil] at member
  rcases Except.bind_eq_error run with failed | ⟨joined, joins, run⟩
  · obtain ⟨before, j, after, t, split, passed, failed⟩ := Except.foldlM_error_split failed
    obtain ⟨same, known⟩ := declareJoin_repeated failed
    have holds := (introduces_declared (p := { q with joins := before }) sources passed).1
    refine ⟨q.sources ++ before.map (·.target), j.target, after.map (·.target), ?_, same,
      known.imp_left fun member => ?_⟩
    · rw [Plan.introduced, split, List.map_append, List.map_cons, List.append_assoc]
    · rwa [holds.names, names] at member
  · obtain ⟨_, _, t, failed⟩ := Except.foldlM_error run
    exact absurd failed coverPath_fresh

end Scope

/-- Queries inside each other with their scopes, the innermost first. -/
abbrev OpenQueries := List (Plan × Scope)

namespace OpenQueries

def scopes (chain : OpenQueries) : List Scope := chain.map (·.2)

/-- The aliases that the queries introduce as sources and as targets of joins. -/
def introduced (chain : OpenQueries) : List String := chain.flatMap (·.1.introduced.map (·.name))

/-- The aliases of the joins that are generated for the queries. -/
def invented (chain : OpenQueries) : List String := chain.flatMap (·.2.invented)

variable {q : Plan} {scope : Scope} {around : OpenQueries} {name : String}

theorem mem_scopes_cons {s : Scope} : s ∈ scopes ((q, scope) :: around) ↔ s = scope ∨ s ∈ around.scopes := List.mem_cons

theorem mem_introduced_cons : name ∈ introduced ((q, scope) :: around) ↔
    name ∈ q.introduced.map (·.name) ∨ name ∈ around.introduced := by
  rw [introduced, List.flatMap_cons, List.mem_append, introduced]

theorem mem_invented_cons : name ∈ invented ((q, scope) :: around) ↔ name ∈ scope.invented ∨ name ∈ around.invented := by
  rw [invented, List.flatMap_cons, List.mem_append, invented]

end OpenQueries

/-- A query of a plan and those around it, each opened inside the scopes around it, whether they are accepted in the end
or not. -/
inductive Plan.Nested (registry : Registry) (p : Plan) : OpenQueries → Prop
  | whole {scope : Scope} (opened : Scope.ofPlan registry [] p = .ok scope) : Nested registry p [(p, scope)]
  | inner {q r : Plan} {scope s : Scope} {around : OpenQueries} (nested : Nested registry p ((q, scope) :: around))
      (inside : r ∈ q.inner) (opened : Scope.ofPlan registry (OpenQueries.scopes ((q, scope) :: around)) r = .ok s) :
      Nested registry p ((r, s) :: (q, scope) :: around)

namespace Plan.Nested

variable {p q : Plan} {scope : Scope} {around chain : OpenQueries}

theorem opened (nested : p.Nested registry ((q, scope) :: around)) :
    Scope.ofPlan registry around.scopes q = .ok scope := by
  cases nested with
  | whole opened => exact opened
  | inner _ _ opened => exact opened

theorem contains (nested : p.Nested registry ((q, scope) :: around)) : p.Contains q := by
  generalize same : (q, scope) :: around = chain at nested
  induction nested generalizing q scope around with
  | whole =>
    cases same
    exact .self
  | inner _ inside _ ih =>
    cases same
    exact .inner (ih rfl) inside

/-- Each of the open queries contains the innermost one, and is itself nested in the plan. -/
theorem enclosing (nested : p.Nested registry ((q, scope) :: around)) {other : Plan × Scope}
    (member : other ∈ (q, scope) :: around) : other.1.Contains q ∧ ∃ rest, p.Nested registry (other :: rest) := by
  generalize same : (q, scope) :: around = chain at nested member
  induction nested generalizing q scope around with
  | whole opened =>
    cases same
    cases List.mem_singleton.mp member
    exact ⟨.self, _, .whole opened⟩
  | inner nested inside opened ih =>
    cases same
    rcases List.mem_cons.mp member with rfl | outer
    · exact ⟨.self, _, .inner nested inside opened⟩
    · obtain ⟨contains, later⟩ := ih rfl outer
      exact ⟨.inner contains inside, later⟩

/-- An alias of an open query is introduced by it or generated. -/
theorem mem_names (nested : p.Nested registry chain) {name : String} :
    (∃ s ∈ chain.scopes, name ∈ s.names) ↔ name ∈ chain.introduced ∨ name ∈ chain.invented := by
  induction nested with
  | whole opened =>
    simp only [OpenQueries.scopes, OpenQueries.introduced, OpenQueries.invented, List.map_cons, List.map_nil,
      List.mem_singleton, exists_eq_left, List.flatMap_singleton, (Scope.ofPlan_opens opened).mem_names]
  | @inner q r scope s around nested inside opened ih =>
    generalize (q, scope) :: around = chain at opened ih ⊢
    simp only [OpenQueries.mem_scopes_cons, OpenQueries.mem_introduced_cons, OpenQueries.mem_invented_cons,
      exists_eq_or_imp, (Scope.ofPlan_opens opened).mem_names, ih]
    tauto

/-- No alias that an open query introduces is generated for one of them. -/
theorem apart (nested : p.Nested registry chain) : ∀ name ∈ chain.introduced, name ∉ chain.invented := by
  induction nested with
  | whole opened =>
    simp only [OpenQueries.introduced, OpenQueries.invented, List.flatMap_singleton]
    exact (Scope.ofPlan_opens opened).invented_notMem
  | @inner q r scope s around nested inside opened ih =>
    have opens := Scope.ofPlan_opens opened
    have free : ∀ name ∈ s.names, ¬∃ o ∈ OpenQueries.scopes ((q, scope) :: around), name ∈ o.names := by
      rintro name member ⟨o, inside, also⟩
      exact opens.introduces.apart o inside name also member
    simp only [nested.mem_names, opens.mem_names, not_or] at free
    generalize (q, scope) :: around = chain at ih free ⊢
    intro name
    rw [OpenQueries.mem_introduced_cons, OpenQueries.mem_invented_cons, not_or]
    rintro (introduced | introduced)
    · exact ⟨opens.invented_notMem name introduced, (free name (.inl introduced)).2⟩
    · exact ⟨fun invented => (free name (.inr invented)).1 introduced, ih name introduced⟩

end Plan.Nested

namespace Select.Resolves

variable {outer : List Scope} {role : Role} {p : Plan} {scope : Scope} {s : Select}

/-- What a resolved query looks up starts at an alias of an open query. -/
theorem rooted (r : Resolves registry outer role p scope s) {path : Path} (member : path ∈ p.paths)
    (checked : path ∉ p.unchecked role) : ∃ o ∈ scope :: outer, path.root ∈ o.names := by
  obtain ⟨e, listed, atPath⟩ := List.mem_filterMap.mp member
  have skipped {e' : Expr} (inside : e' ∈ p.conditions.flatMap Predicate.sought ++
      if role = .counted then p.orderings.map (·.expr) else []) : e'.path? ≠ some path :=
    fun found => checked (List.mem_filterMap.mpr ⟨e', inside, found⟩)
  have sought {cs : List Predicate} (among : ∀ c ∈ cs, c ∈ p.conditions) : e ∉ cs.flatMap Predicate.sought := by
    intro inside
    obtain ⟨c, own, within⟩ := List.mem_flatMap.mp inside
    exact skipped (List.mem_append_left _ (List.mem_flatMap.mpr ⟨c, among c own, within⟩)) atPath
  obtain ⟨clause, t, resolved⟩ : ∃ clause t, Term.ofExpr registry (scope :: outer) clause e = .ok t := by
    rcases List.mem_append.mp listed with free | joined
    · rcases r.freeExprs free with absent | ⟨counted, ordered⟩ | resolved
      · exact absurd absent (sought fun _ => List.mem_append_right _)
      · exact absurd atPath (skipped (List.mem_append_right _ (by rwa [if_pos counted])))
      · exact resolved
    · exact (r.joinExprs joined).resolve_left (sought fun _ => List.mem_append_left _)
  obtain ⟨owner, located⟩ := Term.located_ofExpr resolved atPath
  obtain ⟨o, inside, a, held, name, _⟩ := Scope.locate_ok located
  exact ⟨o, inside, name ▸ List.mem_map_of_mem held⟩

end Select.Resolves

/-- What the open queries and one of them make of the aliases of generated joins. An alias that is introduced by an open
query is never generated, a join starts at an introduced alias, and whatever else is used is either introduced or
generated. -/
structure Plan.SeesAliases (registry : Registry) (q : Plan) (scope : Scope) (around : OpenQueries) : Prop where
  apart : ∀ name ∈ OpenQueries.introduced ((q, scope) :: around), name ∉ OpenQueries.invented ((q, scope) :: around)
  owners : ∀ a ∈ q.owners, a.name ∈ q.introduced.map (·.name)
  navigating : ∀ path ∈ q.paths, path.hops ≠ [] →
    (path.root ∉ q.introduced.map (·.name) ↔ path.root ∈ scope.invented)
  selected : ∀ role s, Select.ofPlan registry around.scopes role q = .ok s → ∀ a ∈ q.selected,
    (a.name ∉ q.introduced.map (·.name) ↔ a.name ∈ scope.invented)
  paths : ∀ role s, Select.ofPlan registry around.scopes role q = .ok s → ∀ path ∈ q.paths, path ∉ q.unchecked role →
    (path.root ∉ OpenQueries.introduced ((q, scope) :: around) ↔
      path.root ∈ OpenQueries.invented ((q, scope) :: around))

/-- The aliases of a subquery are told apart, and none of them is introduced by an open query. -/
def Plan.Unrepeated (r : Plan) (chain : OpenQueries) : Prop :=
  (r.introduced.map (·.name)).Nodup ∧ ∀ a ∈ r.introduced, a.name ∉ chain.introduced

/-- A subquery whose aliases are not repeated is refused for a repeated alias only where one of them is generated for an
open query, and is refused wherever that is so. -/
structure Plan.CollidesOnly (registry : Registry) (r : Plan) (chain : OpenQueries) : Prop where
  invented : ∀ name, Scope.ofPlan registry chain.scopes r = .error (.invalidPlan (.repeatedAlias name)) →
    name ∈ r.introduced.map (·.name) ∧ name ∈ chain.invented
  refused : ∀ a ∈ r.introduced, a.name ∈ chain.invented → ∀ s, Scope.ofPlan registry chain.scopes r ≠ .ok s

/-- No alias that is generated for a query is mentioned in it or in a query that it contains. -/
def Plan.HidesAliases (registry : Registry) (p : Plan) : Prop :=
  ∀ q scope around, p.Nested registry ((q, scope) :: around) →
    ∀ r, q.Contains r → ∀ mention ∈ r.mentions, mention.1 ∉ scope.invented

/-- Whatever an accepted query selects or looks up is introduced by it or by a query around it, and no subquery is
refused for an alias that nothing else introduces. -/
structure Plan.DeclaresAliases (registry : Registry) (q : Plan) (scope : Scope) (around : OpenQueries) : Prop where
  selected : ∀ role s, Select.ofPlan registry around.scopes role q = .ok s →
    ∀ a ∈ q.selected, a.name ∈ q.introduced.map (·.name)
  paths : ∀ role s, Select.ofPlan registry around.scopes role q = .ok s →
    ∀ path ∈ q.paths, path ∉ q.unchecked role → path.root ∈ OpenQueries.introduced ((q, scope) :: around)
  inner : ∀ r ∈ q.inner, r.Unrepeated ((q, scope) :: around) → ∀ name,
    Scope.ofPlan registry (OpenQueries.scopes ((q, scope) :: around)) r ≠ .error (.invalidPlan (.repeatedAlias name))

namespace Plan.Nested

variable {p q : Plan} {scope : Scope} {around chain : OpenQueries}

theorem seesAliases (nested : p.Nested registry ((q, scope) :: around)) : q.SeesAliases registry scope around := by
  have opens := Scope.ofPlan_opens nested.opened
  have own {name : String} (known : name ∈ scope.names) :
      name ∉ q.introduced.map (·.name) ↔ name ∈ scope.invented := by
    exact ⟨(opens.mem_names.mp known).resolve_left, fun invented introduced =>
      opens.invented_notMem name introduced invented⟩
  refine ⟨nested.apart, fun a owner => ?_, fun path listed navigates => own ?_, fun role s run a selected => own ?_,
    fun role s run path listed checked => ?_⟩
  · obtain ⟨t, declared, name⟩ := opens.owners a owner
    exact List.mem_map.mpr ⟨t.source, Plan.mem_introduced.mpr ⟨t, declared, rfl⟩, name⟩
  · obtain ⟨e, inside, atPath⟩ := List.mem_filterMap.mp listed
    rcases List.mem_append.mp inside with free | joined
    · exact (opens.follows (path, false) (Plan.mem_pathUses.mpr ⟨e, free, atPath⟩) navigates).1
    · exact (opens.follows (path, true) (Plan.mem_pathUses.mpr ⟨e, joined, atPath⟩) navigates).1
  · obtain ⟨found, r⟩ := Select.ofPlan_eq_ok.mp run
    cases nested.opened.symm.trans r.opened
    exact selected_of_checkProjections r.projected a selected
  · obtain ⟨found, r⟩ := Select.ofPlan_eq_ok.mp run
    cases nested.opened.symm.trans r.opened
    have known := nested.mem_names.mp (r.rooted listed checked)
    exact ⟨known.resolve_left, fun invented introduced => nested.apart _ introduced invented⟩

theorem collidesOnly (nested : p.Nested registry chain) {r : Plan} (unrepeated : r.Unrepeated chain) :
    r.CollidesOnly registry chain := by
  obtain ⟨distinct, free⟩ := unrepeated
  refine ⟨fun name run => ?_, fun a introduced invented s run => ?_⟩
  · obtain ⟨before, a, after, split, rfl, known⟩ := Scope.ofPlan_repeated run
    have introduced : a ∈ r.introduced := split ▸ List.mem_append_right _ List.mem_cons_self
    refine ⟨List.mem_map_of_mem introduced, ?_⟩
    rcases known with earlier | outer
    · rw [split, List.map_append] at distinct
      exact absurd List.mem_cons_self (List.disjoint_of_nodup_append distinct earlier)
    · exact (nested.mem_names.mp outer).resolve_left (free a introduced)
  · have opens := Scope.ofPlan_opens run
    obtain ⟨o, inside, known⟩ := nested.mem_names.mpr (.inr invented)
    exact opens.introduces.apart o inside a.name known (opens.mem_names.mpr (.inl (List.mem_map_of_mem introduced)))

/-- Where generated aliases are hidden, none of an open query is mentioned in what the innermost one contains. -/
theorem hidden (nested : p.Nested registry ((q, scope) :: around)) (hides : p.HidesAliases registry) {r : Plan}
    (contains : q.Contains r) {mention : String × String} (mentioned : mention ∈ r.mentions) :
    mention.1 ∉ OpenQueries.invented ((q, scope) :: around) := by
  intro invented
  obtain ⟨⟨q', scope'⟩, member, own⟩ := List.mem_flatMap.mp invented
  obtain ⟨encloses, rest, outer⟩ := nested.enclosing member
  exact hides q' scope' rest outer r (encloses.trans contains) mention mentioned own

theorem declaresAliases (nested : p.Nested registry ((q, scope) :: around)) (hides : p.HidesAliases registry) :
    q.DeclaresAliases registry scope around := by
  have sees := nested.seesAliases
  refine ⟨fun role s run a selected => ?_, fun role s run path listed checked => ?_,
    fun r inside unrepeated name run => ?_⟩
  · by_contra undeclared
    have invented := (sees.selected role s run a selected).mp undeclared
    exact hides q scope around nested q .self _ (Plan.mentions_selected selected) invented
  · by_contra undeclared
    have invented := (sees.paths role s run path listed checked).mp undeclared
    exact nested.hidden hides .self (Plan.mentions_path listed) invented
  · obtain ⟨introduced, invented⟩ := (nested.collidesOnly unrepeated).invented name run
    obtain ⟨a, listed, rfl⟩ := List.mem_map.mp introduced
    obtain ⟨t, declared, rfl⟩ := Plan.mem_introduced.mp listed
    exact nested.hidden hides (.inner .self inside) (Plan.mentions_declared declared) invented

end Plan.Nested

/-- A level's plan and scope. -/
def Level.opening (level : Level) : Plan × Scope := (level.plan, level.scope)

/-- Levels that are resolved from each other's subqueries are nested in the plan of the outermost one. -/
theorem Level.Resolved.nested {p : Plan} {levels : List Level} {inner : List Level} {scope : Scope} {s : Select}
    (resolved : Resolved registry p levels) (last : levels = inner ++ [⟨p, scope, s⟩])
    (linked : levels.IsChain fun level next => level.plan ∈ next.plan.inner) :
    p.Nested registry (levels.map Level.opening) := by
  induction inner generalizing levels with
  | nil =>
    subst last
    obtain ⟨_, _, _, r⟩ := resolved _ [] List.suffix_rfl
    exact .whole r.opened
  | cons level rest ih =>
    subst last
    obtain ⟨next, outer, split⟩ := List.exists_cons_of_ne_nil
      (List.append_ne_nil_of_right_ne_nil rest (List.cons_ne_nil (⟨p, scope, s⟩ : Level) []))
    rw [List.cons_append, split] at linked resolved ⊢
    obtain ⟨inside, linked⟩ := List.isChain_cons_cons.mp linked
    obtain ⟨_, _, _, r⟩ := resolved level _ List.suffix_rfl
    have around := ih (fun other outer suffix => resolved other outer (suffix.trans (List.suffix_cons _ _))) split.symm
      linked
    have scopes : OpenQueries.scopes ((next :: outer).map opening) = (next :: outer).map (·.scope) := List.map_map
    exact .inner around inside (scopes ▸ r.opened)

/-- Generated aliases are told apart from those that open queries introduce, and from nothing else that is mentioned. An
accepted query uses an alias that nothing introduces exactly where it is generated, and a subquery with aliases of its own
is refused for one of them exactly because it is generated. Neither happens in a plan whose generated aliases are not
mentioned, which is so when no mentioned alias starts like a generated one. -/
theorem generatedAliases_seen (registry : Registry) (p : Plan) :
    (∀ q scope around, p.Nested registry ((q, scope) :: around) → q.SeesAliases registry scope around ∧
      ∀ r ∈ q.inner, r.Unrepeated ((q, scope) :: around) → r.CollidesOnly registry ((q, scope) :: around)) ∧
    (p.HidesAliases registry → ∀ q scope around, p.Nested registry ((q, scope) :: around) →
      q.DeclaresAliases registry scope around) ∧
    ((∀ q, p.Contains q → ∀ r, q.Contains r → ∀ mention ∈ r.mentions, ¬q.Derives mention.1) → p.HidesAliases registry) ∧
    ∀ d query, compile registry d p = .ok query → ∃ s, p.resolve registry = .ok s ∧
      query.statement = .ofTokens d (s.tokens d false) ∧ ∀ chain, s.Encloses chain →
        ∃ levels, levels.map (·.select) = chain ∧ Level.Resolved registry p levels ∧
          p.Nested registry (levels.map Level.opening) := by
  refine ⟨fun q scope around nested => ⟨nested.seesAliases, fun r _ unrepeated => nested.collidesOnly unrepeated⟩,
    fun hides q scope around nested => nested.declaresAliases hides, ?_, fun d query run => ?_⟩
  · intro apart q scope around nested r contains mention mentioned invented
    exact apart q nested.contains r contains mention mentioned (Scope.ofPlan_derives nested.opened _ invented)
  · obtain ⟨s, resolved, run⟩ := Except.bind_eq_ok.mp run
    cases run
    refine ⟨s, resolved, rfl, fun chain encloses => ?_⟩
    obtain ⟨levels, selects, holds, ⟨inner, scope, last⟩, linked⟩ := encloses.innerLevels (by decide) resolved
    exact ⟨levels, selects, holds, holds.nested last linked⟩

/-- Tasks with their projects' titles, where there are other tasks under an alias of their own. -/
theorem generatedAliases_seen_siblingTasks : siblingTasks.HidesAliases tracker ∧
    ∃ scope, siblingTasks.Nested tracker [(siblingTasks, scope)] ∧ scope.invented = ["task_parent"] ∧
      siblingTasks.SeesAliases tracker scope [] ∧ siblingTasks.DeclaresAliases tracker scope [] := by
  have apart : ∀ q, siblingTasks.Contains q → ∀ r, q.Contains r → ∀ mention ∈ r.mentions, ¬q.Derives mention.1 := by
    unfold Plan.Derives
    refine Plan.forall_contains.mpr ⟨Plan.forall_contains.mpr ⟨by decide, ?_⟩, ?_⟩
    · exact List.forall_mem_singleton.mpr (Plan.forall_contains.mpr ⟨by decide, nofun⟩)
    · refine List.forall_mem_singleton.mpr (Plan.forall_contains.mpr ⟨?_, nofun⟩)
      exact Plan.forall_contains.mpr ⟨by decide, nofun⟩
  have nested : siblingTasks.Nested tracker [(siblingTasks, _)] := .whole rfl
  obtain ⟨sees, declares, hides, _⟩ := generatedAliases_seen tracker siblingTasks
  exact ⟨hides apart, _, nested, rfl, (sees _ _ _ nested).1, declares (hides apart) _ _ _ nested⟩

def projectTitle (name : String) : Path := ((projectAs name).field "title").toOption.getD default

/-- Tasks with their projects' titles, under a condition on an alias that only the join for these titles has. -/
def tasksByJoinedTitle : Plan := { siblingTasks with
  projections := [.expr (taskPath "task" "parent" [] "title")]
  filters := [.compare (.path (projectTitle "task_parent")) .eq (.literal (.text "red"))] }

/-- Tasks with their projects' titles, where there is a project under the alias that the join for these titles gets. -/
def tasksBesideProject : Plan := { siblingTasks with
  projections := [.expr (taskPath "task" "parent" [] "title")]
  filters := [.exists ⟨[], [projectAs "task_parent"], [], [], [], [], [], none, none, false⟩ false] }

/-- The alias of a generated join is used by a path and by a selected entity, and gets in the way of a subquery's own
alias. Without the join the first two are refused and the third is not. -/
theorem compile_captures_alias :
    (∃ query scope, compile tracker .postgres tasksByJoinedTitle = .ok query ∧
      tasksByJoinedTitle.Nested tracker [(tasksByJoinedTitle, scope)] ∧ scope.invented = ["task_parent"] ∧
      tasksByJoinedTitle.introduced.map (·.name) = ["task"] ∧
      ¬tasksByJoinedTitle.DeclaresAliases tracker scope [] ∧ ¬tasksByJoinedTitle.HidesAliases tracker) ∧
    (∃ query, compile tracker .postgres { tasksByJoinedTitle with
      projections := tasksByJoinedTitle.projections ++ [.entity (projectAs "task_parent")] } = .ok query) ∧
    compile tracker .postgres { tasksByJoinedTitle with projections := [.entity (taskAs "task")] } =
      .error (.invalidPlan (.unknownAlias "task_parent" "task_parent.title")) ∧
    compile tracker .postgres { tasksByJoinedTitle with projections := [.entity (projectAs "task_parent")] } =
      .error (.invalidPlan (.unsourcedProjection "task_parent")) ∧
    tasksBesideProject.introduced.map (·.name) = ["task"] ∧
    compile tracker .postgres tasksBesideProject = .error (.invalidPlan (.repeatedAlias "task_parent")) ∧
    ∃ query, compile tracker .postgres { tasksBesideProject with projections := [.entity (taskAs "task")] } =
      .ok query := by
  have nested : tasksByJoinedTitle.Nested tracker [(tasksByJoinedTitle, _)] := .whole rfl
  have captured (scope : Scope) : ¬tasksByJoinedTitle.DeclaresAliases tracker scope [] := by
    intro declares
    have declared := declares.paths .rows _ rfl (projectTitle "task_parent") (by decide) (by decide)
    exact absurd declared (by decide : "task_parent" ∉ ["task"])
  refine ⟨⟨_, _, rfl, nested, rfl, rfl, captured _, fun hides => ?_⟩, ⟨_, rfl⟩, rfl, rfl, rfl, rfl, _, rfl⟩
  exact captured _ (nested.declaresAliases hides)

end EntityMapper
