import EntityMapper.Proofs.Compile.GeneratedAliases

namespace EntityMapper

namespace Plan

/-- The paths of a query's join conditions. -/
def joinPaths (q : Plan) : List Path := (q.joinConditions.flatMap Predicate.exprs).filterMap Expr.path?

/-- The alias that an association of an alias is joined under by the query itself, by its last join for it. -/
def joined? (q : Plan) (owner association : String) : Option String :=
  (q.declared.filterMap FromTable.hop?).reverse.lookup (owner, association)

/-- The alias that associations lead to from another one along joins of the query itself. -/
def route? (q : Plan) : List Association → String → Option String
  | [], current => some current
  | hop :: rest, current => (q.joined? current hop.name).bind (q.route? rest)

/-- The query's own joins lead along all associations of the paths in its join conditions. -/
def RoutesJoins (q : Plan) : Prop := ∀ path ∈ q.joinPaths, path.hops ≠ [] → q.route? path.hops path.root ≠ none

/-- The paths of a select list, for which joins are generated first of all. -/
def listedUses (ps : List Projection) : List (Path × Bool) :=
  (ps.filterMap (·.expr?)).filterMap fun e => e.path?.map (·, false)

/-- The paths of the clauses behind the joins. -/
def laterUses (q : Plan) : List (Path × Bool) :=
  ((q.filters ++ q.havings).flatMap Predicate.exprs ++ (q.groups ++ q.orderings.map (·.expr))).filterMap
    fun e => e.path?.map (·, false)

theorem pathUses_eq (q : Plan) :
    q.pathUses = listedUses q.projections ++ (q.joinPaths.map (·, true) ++ q.laterUses) := by
  unfold pathUses listedUses joinPaths laterUses
  simp only [flatMap_joinConditions, List.append_assoc, List.map_filterMap, List.filterMap_append]

end Plan

namespace Scope

variable {registry : Registry} {outer : List Scope} {s after scope : Scope} {q : Plan} {path : Path}

/-- Generates joins for paths one by one. -/
def coverUses (registry : Registry) (outer : List Scope) (uses : List (Path × Bool)) (s : Scope) : Except Error Scope :=
  uses.foldlM (fun s (path, inCondition) => s.coverPath registry outer path inCondition) s

/-- The aliases of a query with the joins that the paths of a select list need. -/
def listing (registry : Registry) (outer : List Scope) (q : Plan) (ps : List Projection) : Except Error Scope := do
  let sourced ← q.sources.foldlM (declare outer) empty
  let joined ← q.joins.foldlM (declareJoin outer) sourced
  coverUses registry outer (Plan.listedUses ps) joined

/-- Joins are generated for the select list, then the join conditions are covered, then joins are generated for all other
clauses. -/
theorem ofPlan_eq_ok {ps : List Projection} : ofPlan registry outer { q with projections := ps } = .ok scope ↔
    q.sources.isEmpty = false ∧ ∃ listed conditioned, listing registry outer q ps = .ok listed ∧
      coverUses registry outer (q.joinPaths.map (·, true)) listed = .ok conditioned ∧
      coverUses registry outer q.laterUses conditioned = .ok scope := by
  have uses : Plan.pathUses { q with projections := ps } =
      Plan.listedUses ps ++ (q.joinPaths.map (·, true) ++ q.laterUses) := Plan.pathUses_eq _
  unfold ofPlan
  rw [uses]
  cases sources : q.sources.isEmpty with
  | true =>
    constructor
    · intro run
      cases run
    · rintro ⟨no, _⟩
      cases no
  | false =>
    rw [if_neg Bool.false_ne_true]
    unfold listing coverUses
    simp only [List.foldlM_append, Except.bind_eq_ok]
    constructor
    · rintro ⟨sourced, first, joined, second, listed, third, conditioned, fourth, last⟩
      exact ⟨trivial, listed, conditioned, ⟨sourced, first, joined, second, third⟩, fourth, last⟩
    · rintro ⟨_, listed, conditioned, ⟨sourced, first, joined, second, third⟩, fourth, last⟩
      exact ⟨sourced, first, joined, second, listed, third, conditioned, fourth, last⟩

/-- A path in a join condition is covered exactly where it can be followed, and nothing is generated for it. -/
theorem cover_condition {hops : List Association} {current : String} :
    cover registry outer path true hops current s = .ok after ↔
      (∃ last, s.follow path hops current = .ok last) ∧ after = s := by
  induction hops generalizing current with
  | nil =>
    constructor
    · intro run
      cases run
      exact ⟨⟨current, rfl⟩, rfl⟩
    · rintro ⟨_, rfl⟩
      rfl
  | cons hop rest ih =>
    unfold cover follow
    cases reached : s.hop? current hop.name with
    | some next => exact ih
    | none =>
      constructor
      · intro run
        cases run
      · rintro ⟨⟨_, run⟩, _⟩
        cases run

theorem coverPath_condition : coverPath registry outer s path true = .ok after ↔ s.Follows path ∧ after = s := by
  unfold coverPath Follows
  by_cases direct : path.hops = []
  · constructor
    · intro run
      rw [direct] at run
      cases run
      exact ⟨fun navigates => absurd direct navigates, rfl⟩
    · rintro ⟨_, rfl⟩
      rw [direct]
      rfl
  · rw [List.isEmpty_eq_false_iff.mpr direct, if_neg Bool.false_ne_true]
    by_cases root : path.root ∈ s.names
    · rw [if_pos (has_iff.mpr root), cover_condition]
      simp [direct, root]
    · rw [if_neg (fun has => root (has_iff.mp has))]
      constructor
      · intro run
        split at run
        · cases run
        · cases run
      · rintro ⟨follows, _⟩
        exact absurd (follows direct).1 root

theorem coverUses_conditions {paths : List Path} : coverUses registry outer (paths.map (·, true)) s = .ok after ↔
    (∀ path ∈ paths, s.Follows path) ∧ after = s := by
  unfold coverUses
  induction paths with
  | nil =>
    constructor
    · intro run
      cases run
      exact ⟨fun _ none => absurd none List.not_mem_nil, rfl⟩
    · rintro ⟨_, rfl⟩
      rfl
  | cons path rest ih =>
    rw [List.map_cons, List.foldlM_cons, Except.bind_eq_ok]
    constructor
    · rintro ⟨next, own, later⟩
      obtain ⟨follows, rfl⟩ := coverPath_condition.mp own
      obtain ⟨others, rfl⟩ := ih.mp later
      exact ⟨List.forall_mem_cons.mpr ⟨follows, others⟩, rfl⟩
    · rintro ⟨follows, rfl⟩
      obtain ⟨own, others⟩ := List.forall_mem_cons.mp follows
      exact ⟨_, coverPath_condition.mpr ⟨own, rfl⟩, ih.mpr ⟨others, rfl⟩⟩

/-- Joins are only generated for a scope that holds what the query introduces itself. -/
theorem ofPlan_grown (run : ofPlan registry outer q = .ok scope) : ∃ joined : Scope,
    joined.Introduces outer q.declared ∧ Generates registry outer joined scope.generated scope ∧
      ∀ ps, listing registry outer q ps = coverUses registry outer (Plan.listedUses ps) joined := by
  unfold ofPlan at run
  split at run
  · cases run
  obtain ⟨sourced, sources, run⟩ := Except.bind_eq_ok.mp run
  obtain ⟨joined, joins, run⟩ := Except.bind_eq_ok.mp run
  obtain ⟨holds, none, _⟩ := introduces_declared sources joins
  obtain ⟨js, grown, _⟩ := coverPaths_generates holds run
  have generated : scope.generated = js := by rw [grown.generated, none, List.nil_append]
  refine ⟨joined, holds, generated ▸ grown, fun ps => ?_⟩
  rw [listing, sources, Except.ok_bind, joins, Except.ok_bind]

/-- The aliases and the associations behind a query's own joins lead where these joins say. -/
theorem Introduces.hop?_eq {joined : Scope} (holds : joined.Introduces outer q.declared) (owner association : String) :
    joined.hop? owner association = q.joined? owner association := by
  rw [hop?, holds.hops]
  rfl

theorem Introduces.names_eq {joined : Scope} (holds : joined.Introduces outer q.declared) :
    joined.names = q.introduced.map (·.name) := by
  rw [holds.names, ← q.sources_declared, List.map_map]
  rfl

theorem Introduces.owner_of_hop? {tables : List FromTable} (holds : s.Introduces outer tables)
    {owner association next : String} (found : s.hop? owner association = some next) : owner ∈ s.names := by
  obtain ⟨t, inside, a, link, _, _⟩ := holds.joined found
  obtain ⟨before, after, split⟩ := List.append_of_mem inside
  have earlier := holds.ordered before t after split owner a link
  rw [holds.names, split, List.map_append]
  exact List.mem_append_left _ earlier

theorem Introduces.follow_iff {joined : Scope} (holds : joined.Introduces outer q.declared) {hops : List Association}
    {current last : String} : joined.follow path hops current = .ok last ↔ q.route? hops current = some last := by
  induction hops generalizing current with
  | nil => simp [follow, Plan.route?]
  | cons hop rest ih =>
    unfold follow Plan.route?
    rw [holds.hop?_eq]
    cases q.joined? current hop.name with
    | some next => exact ih
    | none => simp [refusePlan]

theorem Introduces.follows_iff {joined : Scope} (holds : joined.Introduces outer q.declared) :
    joined.Follows path ↔ (path.hops ≠ [] → q.route? path.hops path.root ≠ none) := by
  constructor
  · intro follows navigates
    obtain ⟨_, last, followed⟩ := follows navigates
    rw [holds.follow_iff.mp followed]
    exact Option.some_ne_none last
  · intro routed navigates
    obtain ⟨last, route⟩ := Option.ne_none_iff_exists'.mp (routed navigates)
    refine ⟨?_, last, holds.follow_iff.mpr route⟩
    cases hops : path.hops with
    | nil => exact absurd hops navigates
    | cons hop rest =>
      rw [hops] at route
      obtain ⟨next, first, _⟩ := Option.bind_eq_some_iff.mp route
      exact holds.owner_of_hop? ((holds.hop?_eq _ _).trans first)

/-- What associations lead to is either joined by the query itself or generated. -/
theorem Generates.hop?_split {joined : Scope} (holds : joined.Introduces outer q.declared)
    (grown : Generates registry outer joined scope.generated scope) {owner association next : String}
    (found : scope.hop? owner association = some next) :
    joined.hop? owner association = some next ∨ (joined.hop? owner association = none ∧ next ∈ scope.invented) := by
  cases own : joined.hop? owner association with
  | some other =>
    rw [grown.hop? own] at found
    exact .inl found
  | none =>
    obtain ⟨t, member, a, link, rfl, rfl⟩ := (grown.introduces holds).joined found
    have pair : t.pair? = some (owner, a.name) := by rw [FromTable.pair?, link]; rfl
    rcases List.mem_append.mp member with declared | generated
    · exact absurd pair (lookup_eq_none_of_pair? holds own t declared)
    · obtain ⟨j, inside, rfl⟩ := List.mem_map.mp generated
      exact .inr ⟨rfl, List.mem_map_of_mem inside⟩

/-- From an alias that the query introduces, associations lead along its own joins to another one, or to an alias of a
generated join. -/
theorem Generates.follow_route {joined : Scope} (holds : joined.Introduces outer q.declared)
    (grown : Generates registry outer joined scope.generated scope)
    (apart : ∀ name ∈ joined.names, name ∉ scope.invented) {hops : List Association} {current last : String}
    (followed : scope.follow path hops current = .ok last) :
    (current ∈ joined.names → last ∈ joined.names ∧ q.route? hops current = some last ∨
      last ∈ scope.invented ∧ q.route? hops current = none) ∧
    (current ∈ scope.invented → last ∈ scope.invented) := by
  induction hops generalizing current with
  | nil =>
    cases followed
    exact ⟨fun source => .inl ⟨source, rfl⟩, id⟩
  | cons hop rest ih =>
    unfold Scope.follow at followed
    unfold Plan.route?
    cases found : scope.hop? current hop.name with
    | none =>
      rw [found] at followed
      cases followed
    | some next =>
      rw [found] at followed
      obtain ⟨routed, lost⟩ := ih followed
      rcases grown.hop?_split holds found with own | ⟨none, invented⟩
      · rw [← holds.hop?_eq, own]
        exact ⟨fun _ => routed (holds.mem_of_hop? own),
          fun invented => absurd invented (apart _ (holds.owner_of_hop? own))⟩
      · rw [← holds.hop?_eq, none]
        exact ⟨fun _ => .inr ⟨lost invented, rfl⟩, fun _ => lost invented⟩

/-- A path that is located inside a query stands behind an alias of a generated join exactly when it starts at one or
when the query's own joins do not lead along its associations. -/
theorem ofPlan_invented (run : ofPlan registry outer q = .ok scope) (root : path.root ∈ scope.names) {owner : String}
    (followed : scope.follow path path.hops path.root = .ok owner) :
    owner ∈ scope.names ∧
      (owner ∈ scope.invented ↔ path.root ∈ scope.invented ∨ q.route? path.hops path.root = none) := by
  have opens := ofPlan_opens run
  obtain ⟨joined, holds, grown, _⟩ := ofPlan_grown run
  have apart : ∀ name ∈ joined.names, name ∉ scope.invented := by
    rw [holds.names_eq]
    exact opens.invented_notMem
  obtain ⟨routed, lost⟩ := grown.follow_route holds apart followed
  rcases opens.mem_names.mp root with introduced | invented
  · have source : path.root ∈ joined.names := by rwa [holds.names_eq]
    rcases routed source with ⟨known, route⟩ | ⟨invented, route⟩
    · refine ⟨grown.mem_names known, ?_⟩
      simp [apart _ known, apart _ source, route]
    · exact ⟨opens.mem_names.mpr (.inr invented), by simp [invented, route]⟩
  · exact ⟨opens.mem_names.mpr (.inr (lost invented)), by simp [invented, lost invented]⟩

/-- A path of an opened query that does not stand behind an alias of a generated join is located alike behind every select
list. -/
theorem locate_steady {ps : List Projection} {other : Scope} {owner : String} (run : ofPlan registry outer q = .ok scope)
    (otherRun : ofPlan registry outer { q with projections := ps } = .ok other)
    (located : locate (scope :: outer) path = .ok owner) (own : owner ∉ scope.invented) :
    locate (other :: outer) path = .ok owner := by
  obtain ⟨joined, holds, grown, _⟩ := ofPlan_grown run
  obtain ⟨also, same, later, _⟩ := ofPlan_grown otherRun
  have same : also.Introduces outer q.declared := same
  by_cases root : path.root ∈ scope.names
  · obtain ⟨_, _, _, _, followed⟩ := locate_own root located
    obtain ⟨_, invented⟩ := ofPlan_invented run root followed
    rw [invented, not_or] at own
    obtain ⟨outside, routed⟩ := own
    have introduced := ((ofPlan_opens run).mem_names.mp root).resolve_right outside
    obtain ⟨last, route⟩ := Option.ne_none_iff_exists'.mp routed
    obtain ⟨a, found⟩ := find?_of_mem_names (s := joined) (holds.names_eq ▸ introduced)
    have aliases : also.aliases = joined.aliases := same.aliases.trans holds.aliases.symm
    have foundAlso : also.find? path.root = some a := by rw [find?, aliases]; exact found
    rw [locate_found (grown.find? found), grown.follow path (holds.follow_iff.mpr route)] at located
    rw [locate_found (later.find? foundAlso), later.follow path (same.follow_iff.mpr route)]
    exact located
  · rw [locate_outside root] at located
    obtain ⟨o, inside, a, held, name, _⟩ := locate_ok located
    have absent := (ofPlan_opens otherRun).introduces.apart o inside path.root (name ▸ List.mem_map_of_mem held)
    rwa [locate_outside absent]

end Scope

namespace Plan

variable {registry : Registry} {outer : List Scope} {q : Plan} {scope : Scope}

/-- Once joins are generated for a select list, the paths of the join conditions are covered. -/
def AcceptsJoins (registry : Registry) (outer : List Scope) (q : Plan) (ps : List Projection) : Prop :=
  ∀ listed, Scope.listing registry outer q ps = .ok listed →
    ∃ conditioned, Scope.coverUses registry outer (q.joinPaths.map (·, true)) listed = .ok conditioned

/-- The join conditions of a query that can be opened are accepted behind every select list exactly when the query's own
joins lead along their associations. -/
theorem acceptsJoins_iff (run : Scope.ofPlan registry outer q = .ok scope) :
    (∀ ps, q.AcceptsJoins registry outer ps) ↔ q.RoutesJoins := by
  obtain ⟨joined, holds, _, listing⟩ := Scope.ofPlan_grown run
  constructor
  · intro accepts path member
    obtain ⟨_, covered⟩ := accepts [] joined (listing [])
    exact holds.follows_iff.mp ((Scope.coverUses_conditions.mp covered).1 path member)
  · intro routes ps listed listedRun
    rw [listing ps] at listedRun
    obtain ⟨js, grown, _⟩ := Scope.coverPaths_generates holds listedRun
    refine ⟨listed, Scope.coverUses_conditions.mpr ⟨fun path member => ?_, rfl⟩⟩
    exact Scope.Follows.grown (holds.follows_iff.mpr (routes path member)) grown

/-- A query whose join conditions are not accepted behind a select list is refused with it. -/
theorem refused_of_not_acceptsJoins {ps : List Projection} (refused : ¬q.AcceptsJoins registry outer ps) {role : Role}
    {s : Select} : Select.ofPlan registry outer role { q with projections := ps } ≠ .ok s := by
  intro run
  obtain ⟨scope, r⟩ := Select.ofPlan_eq_ok.mp run
  obtain ⟨_, listed, conditioned, first, covered, _⟩ := Scope.ofPlan_eq_ok.mp r.opened
  refine refused fun other again => ?_
  cases first.symm.trans again
  exact ⟨conditioned, covered⟩

end Plan

/-- A term that is no subquery, and whose column is located at its alias. -/
structure Term.Placed (scopes : List Scope) (t : Term) : Prop where
  flat : t.select? = none
  located : ∀ owner path, t.column? = some (owner, path) → locate scopes path = .ok owner

section Placed

variable {registry : Registry} {scopes others : List Scope} {clause : Clause}

theorem Term.Placed.ofExpr : ∀ {e : Expr} {t : Term}, t.Placed others → ofExpr registry scopes clause e = .ok t →
    ofExpr registry others clause e = .ok t
  | .path p, _, placed, run => by
    obtain ⟨owner, _, run⟩ := Except.bind_eq_ok.mp run
    cases run
    exact Except.bind_eq_ok.mpr ⟨owner, placed.located owner p rfl, rfl⟩
  | .literal v, _, _, run => run
  | .aggregate f argument distinct, _, placed, run => by
    obtain ⟨r, resolved, rfl⟩ := ofExpr_aggregate run
    have inner : r.Placed others := ⟨placed.flat, placed.located⟩
    have again := Term.Placed.ofExpr inner resolved
    unfold Term.ofExpr at run ⊢
    split at run
    · cases run
    split at run
    · cases run
    case isFalse.isFalse allowed flat => rw [if_neg allowed, if_neg flat, again, Except.ok_bind]
  | .subquery plan, _, placed, run => by
    obtain ⟨s, _, run⟩ := Except.bind_eq_ok.mp run
    cases run
    cases placed.flat

theorem termsOfExprs_placed {es : List Expr} {ts : List Term} (run : termsOfExprs registry scopes clause es = .ok ts)
    (placed : ∀ t ∈ ts, t.Placed others) : termsOfExprs registry others clause es = .ok ts := by
  rw [termsOfExprs_eq, Except.mapM_eq_ok] at run ⊢
  induction run with
  | nil => exact .nil
  | cons own _ ih =>
    obtain ⟨first, rest⟩ := List.forall_mem_cons.mp placed
    exact .cons (first.ofExpr own) (ih rest)

mutual

/-- A condition without subqueries is resolved alike where its columns are located alike. -/
theorem Condition.ofPredicate_placed : ∀ (p : Predicate) (c : Condition),
    Condition.ofPredicate registry scopes clause p = .ok c → (∀ t ∈ c.terms, t.Placed others) → c.selects = [] →
      Condition.ofPredicate registry others clause p = .ok c
  | .compare left op right, _, run, placed, _ => by
    obtain ⟨l, first, run⟩ := Except.bind_eq_ok.mp run
    obtain ⟨r, second, run⟩ := Except.bind_eq_ok.mp run
    cases run
    simp only [Condition.terms, List.forall_mem_cons] at placed
    unfold Condition.ofPredicate
    rw [placed.1.ofExpr first, Except.ok_bind, placed.2.1.ofExpr second, Except.ok_bind]
  | .between expr low high, _, run, placed, _ => by
    obtain ⟨e, first, run⟩ := Except.bind_eq_ok.mp run
    obtain ⟨l, second, run⟩ := Except.bind_eq_ok.mp run
    obtain ⟨h, third, run⟩ := Except.bind_eq_ok.mp run
    cases run
    simp only [Condition.terms, List.forall_mem_cons] at placed
    unfold Condition.ofPredicate
    rw [placed.1.ofExpr first, Except.ok_bind, placed.2.1.ofExpr second, Except.ok_bind, placed.2.2.1.ofExpr third,
      Except.ok_bind]
  | .inValues expr values negated, _, run, placed, _ => by
    unfold Condition.ofPredicate at run ⊢
    split at run
    case isTrue empty => rw [if_pos empty, run]
    case isFalse listed =>
      obtain ⟨e, first, run⟩ := Except.bind_eq_ok.mp run
      obtain ⟨vs, rest, run⟩ := Except.bind_eq_ok.mp run
      cases run
      simp only [Condition.terms, List.forall_mem_cons] at placed
      rw [if_neg listed, placed.1.ofExpr first, Except.ok_bind, termsOfExprs_placed rest placed.2, Except.ok_bind]
  | .inPlan expr plan negated, _, run, _, flat => by
    obtain ⟨e, _, run⟩ := Except.bind_eq_ok.mp run
    obtain ⟨s, _, run⟩ := Except.bind_eq_ok.mp run
    cases run
    cases flat
  | .isNull expr negated, _, run, placed, _ => by
    obtain ⟨e, first, run⟩ := Except.bind_eq_ok.mp run
    cases run
    simp only [Condition.terms, List.forall_mem_cons] at placed
    unfold Condition.ofPredicate
    rw [placed.1.ofExpr first, Except.ok_bind]
  | .exists plan negated, _, run, _, flat => by
    obtain ⟨s, _, run⟩ := Except.bind_eq_ok.mp run
    cases run
    cases flat
  | .and items, _, run, placed, flat => by
    obtain ⟨cs, first, run⟩ := Except.bind_eq_ok.mp run
    cases run
    unfold Condition.ofPredicate
    rw [conditionsOfPredicates_placed items cs first placed flat, Except.ok_bind]
  | .or items, _, run, placed, flat => by
    obtain ⟨cs, first, run⟩ := Except.bind_eq_ok.mp run
    cases run
    unfold Condition.ofPredicate
    rw [conditionsOfPredicates_placed items cs first placed flat, Except.ok_bind]
  | .not inner, _, run, placed, flat => by
    obtain ⟨c, first, run⟩ := Except.bind_eq_ok.mp run
    cases run
    unfold Condition.ofPredicate
    rw [Condition.ofPredicate_placed inner c first placed flat, Except.ok_bind]
termination_by structural p => p

theorem conditionsOfPredicates_placed : ∀ (ps : List Predicate) (cs : List Condition),
    conditionsOfPredicates registry scopes clause ps = .ok cs → (∀ t ∈ Condition.termsOfAll cs, t.Placed others) →
      Condition.selectsOfAll cs = [] → conditionsOfPredicates registry others clause ps = .ok cs
  | [], _, run, _, _ => run
  | p :: rest, _, run, placed, flat => by
    obtain ⟨c, first, run⟩ := Except.bind_eq_ok.mp run
    obtain ⟨cs, later, run⟩ := Except.bind_eq_ok.mp run
    cases run
    simp only [Condition.termsOfAll, Condition.selectsOfAll, List.forall_mem_append, List.append_eq_nil_iff] at placed flat
    unfold conditionsOfPredicates
    rw [Condition.ofPredicate_placed p c first placed.1 flat.1, Except.ok_bind,
      conditionsOfPredicates_placed rest cs later placed.2 flat.2, Except.ok_bind]
termination_by structural ps => ps

end

end Placed

namespace Select

/-- The paths that the conditions of a query's own joins render, each with the alias in front of its column. -/
def joinColumns (s : Select) : List (String × Path) :=
  ((s.joins.filterMap (·.condition)).flatMap Condition.terms).filterMap Term.column?

/-- The conditions of a query's own joins have no subqueries. -/
def FlatJoins (s : Select) : Prop :=
  ∀ c ∈ s.joins.filterMap (·.condition), c.selects = [] ∧ ∀ t ∈ c.terms, t.select? = none

theorem joinColumns_subset (s : Select) : s.joinColumns ⊆ s.columns := by
  refine List.filterMap_subset _ fun t member => ?_
  have conditional : t ∈ s.conditions.flatMap Condition.terms := by
    rw [conditions, List.flatMap_append]
    exact List.mem_append_left _ member
  simp only [terms, List.mem_append]
  exact .inl (.inl (.inr conditional))

end Select

/-- What generated joins have to do with the conditions of the joins that a query names itself. A path of a condition
stands behind an alias of a generated join exactly when it starts at one or when the query's own joins do not lead along
its associations, and behind one of an enclosing query only when it starts there. The conditions are accepted behind
every select list exactly when the query's own joins lead along all of their associations, and those that have nothing
to do with generated joins are the same behind every select list. -/
structure Plan.SettlesJoins (registry : Registry) (outer : List Scope) (q : Plan) (scope : Scope) (s : Select) : Prop where
  own : ∀ owner path, (owner, path) ∈ s.joinColumns →
    (owner ∈ scope.invented ↔ path.root ∈ scope.invented ∨ q.route? path.hops path.root = none)
  enclosing : ∀ owner path, (owner, path) ∈ s.columns → ∀ o ∈ outer, (owner ∈ o.invented ↔ path.root ∈ o.invented)
  accepted : (∀ ps, q.AcceptsJoins registry outer ps) ↔ q.RoutesJoins
  refused : ∀ ps, ¬q.AcceptsJoins registry outer ps → ∀ role t,
    Select.ofPlan registry outer role { q with projections := ps } ≠ .ok t
  steady : s.FlatJoins → (∀ owner path, (owner, path) ∈ s.joinColumns → owner ∉ scope.invented) →
    ∀ ps other, Scope.ofPlan registry outer { q with projections := ps } = .ok other →
      clausesOfJoins registry (other :: outer) q.joins = .ok s.joins

namespace Select.Resolves

variable {registry : Registry} {outer : List Scope} {role : Role} {q : Plan} {scope : Scope} {s : Select}

/-- A rendered path starts at an alias of its query and stays there, or follows nothing and starts further out. -/
theorem column_place (r : Resolves registry outer role q scope s) {owner : String} {path : Path}
    (member : (owner, path) ∈ s.columns) :
    (path.root ∈ scope.names ∧ scope.follow path path.hops path.root = .ok owner) ∨
      (path.root ∉ scope.names ∧ path.hops = [] ∧ owner = path.root) := by
  obtain ⟨⟨inCondition, used⟩, located⟩ := r.columns member
  by_cases root : path.root ∈ scope.names
  · obtain ⟨_, _, _, _, followed⟩ := Scope.locate_own root located
    exact .inl ⟨root, followed⟩
  · have own : path.hops = [] := by
      by_contra navigates
      exact root ((Scope.ofPlan_opens r.opened).follows _ used navigates).1
    exact .inr ⟨root, own, Scope.locate_unnavigated own located⟩

/-- The joins of a query are resolved alike in scopes in which the columns of their conditions are located alike. -/
theorem joins_placed (r : Resolves registry outer role q scope s) {others : List Scope} (flat : s.FlatJoins)
    (placed : ∀ owner path, (owner, path) ∈ s.joinColumns → locate others path = .ok owner) :
    clausesOfJoins registry others q.joins = .ok s.joins := by
  have joins := r.joins
  rw [clausesOfJoins_eq, Except.mapM_eq_ok] at joins ⊢
  refine (List.forall₂_iff_zip.mp joins).elim fun length same => List.forall₂_iff_zip.mpr ⟨length, fun {j c} pair => ?_⟩
  have run := same pair
  have listed : c ∈ s.joins := (List.of_mem_zip pair).2
  cases j with
  | mk kind target association condition fetch =>
    obtain ⟨c?, resolved, run⟩ := Except.bind_eq_ok.mp run
    cases run
    refine Except.bind_eq_ok.mpr ⟨c?, ?_, rfl⟩
    cases condition with
    | none => exact resolved
    | some p =>
      obtain ⟨own, found, run⟩ := Except.bind_eq_ok.mp resolved
      cases run
      have inside : own ∈ s.joins.filterMap (·.condition) := List.mem_filterMap.mpr ⟨_, listed, rfl⟩
      obtain ⟨plain, values⟩ := flat own inside
      refine Except.bind_eq_ok.mpr ⟨own, Condition.ofPredicate_placed p own found (fun t member => ?_) plain, rfl⟩
      refine ⟨values t member, fun owner path column => placed owner path ?_⟩
      exact List.mem_filterMap.mpr ⟨t, List.mem_flatMap.mpr ⟨own, inside, member⟩, column⟩

theorem settlesJoins (r : Resolves registry outer role q scope s)
    (known : ∀ o ∈ outer, ∀ name ∈ o.invented, name ∈ o.names) : q.SettlesJoins registry outer scope s := by
  have opens := Scope.ofPlan_opens r.opened
  refine ⟨fun owner path member => ?_, fun owner path member o around => ?_, Plan.acceptsJoins_iff r.opened,
    fun ps refused role t => Plan.refused_of_not_acceptsJoins refused, fun flat own ps other opened => ?_⟩
  · rcases r.column_place (s.joinColumns_subset member) with ⟨root, followed⟩ | ⟨absent, hops, rfl⟩
    · exact (Scope.ofPlan_invented r.opened root followed).2
    · have outside : path.root ∉ scope.invented := fun invented => absent (opens.mem_names.mpr (.inr invented))
      simp [outside, hops, Plan.route?]
  · rcases r.column_place member with ⟨root, followed⟩ | ⟨_, _, rfl⟩
    · have apart {name : String} (inside : name ∈ scope.names) : name ∉ o.invented := fun invented =>
        opens.introduces.apart o around name (known o around name invented) inside
      have owned := (Scope.ofPlan_invented r.opened root followed).1
      simp [apart root, apart owned]
    · exact Iff.rfl
  · refine r.joins_placed flat fun owner path member => ?_
    obtain ⟨_, located⟩ := r.columns (s.joinColumns_subset member)
    exact Scope.locate_steady r.opened opened located (own owner path member)

end Select.Resolves

/-- In every query of an accepted statement, what generated joins have to do with the conditions of the query's own joins
is settled by these joins and by the aliases that the conditions start at. -/
theorem compile_settlesJoins {registry : Registry} {p : Plan} {d : Dialect} {query : CompiledQuery}
    (run : compile registry d p = .ok query) : ∃ s, p.resolve registry = .ok s ∧
      query.statement = .ofTokens d (s.tokens d false) ∧ ∀ chain, s.Encloses chain →
        ∃ levels, levels.map (·.select) = chain ∧ Level.Resolved registry p levels ∧
          (∃ inner scope, levels = inner ++ [⟨p, scope, s⟩]) ∧ ∀ level around, level :: around <:+ levels →
            level.plan.SettlesJoins registry (around.map (·.scope)) level.scope level.select := by
  obtain ⟨s, resolved, run⟩ := Except.bind_eq_ok.mp run
  cases run
  refine ⟨s, resolved, rfl, fun chain encloses => ?_⟩
  obtain ⟨levels, selects, holds, last⟩ := encloses.levels (by decide) resolved
  refine ⟨levels, selects, holds, last, fun level around suffix => ?_⟩
  obtain ⟨_, _, _, r⟩ := holds level around suffix
  refine r.settlesJoins (List.forall_mem_map.mpr fun other member name invented => ?_)
  obtain ⟨_, _, _, _, theirs⟩ := holds.of_mem (suffix.subset (List.mem_cons_of_mem level member))
  exact (Scope.ofPlan_opens theirs.opened).mem_names.mpr (.inr invented)

/-- Tasks' titles beside the clients that are named like the tasks' projects. -/
def tasksBesideClients : Plan := { siblingTasks with
  projections := [.expr (taskPath "task" "parent" [] "title")]
  joins := [⟨.inner, clientAs "client", none, some (.compare (taskPath "task" "parent" [] "title") .eq
    (.path (((clientAs "client").field "name").toOption.getD default))), false⟩]
  filters := [] }

/-- The same with the projects joined before the clients, and with a client for which a join is generated. -/
def tasksWithProjects : Plan := { tasksBesideClients with
  projections := [.expr (taskPath "task" "parent" ["parent"] "name")]
  joins := ⟨.left, projectAs "project", ((taskAs "task").association tracker "parent").toOption, none, false⟩ ::
    tasksBesideClients.joins }

theorem compile_settlesJoins_tasksWithProjects :
    ∃ query s scope, compile tracker .postgres tasksWithProjects = .ok query ∧
      tasksWithProjects.resolve tracker = .ok s ∧ tasksWithProjects.SettlesJoins tracker [] scope s ∧
      tasksWithProjects.RoutesJoins ∧ scope.invented = ["project_parent"] ∧
      s.joinColumns.map (·.1) = ["project", "client"] ∧ s.FlatJoins := by
  have compiled : compile tracker .postgres tasksWithProjects = .ok _ := rfl
  obtain ⟨s, resolved, _, holds⟩ := compile_settlesJoins compiled
  obtain ⟨levels, _, resolves, ⟨inner, scope, last⟩, settles⟩ := holds _ .whole
  have suffix : [⟨tasksWithProjects, scope, s⟩] <:+ levels := last ▸ List.suffix_append inner _
  obtain ⟨_, _, _, r⟩ := resolves _ _ suffix
  have opened : Scope.ofPlan tracker [] tasksWithProjects = .ok _ := rfl
  cases opened.symm.trans r.opened
  have same : tasksWithProjects.resolve tracker = .ok _ := rfl
  cases same.symm.trans resolved
  refine ⟨_, _, _, compiled, same, settles _ _ suffix, ?_, rfl, rfl, ?_⟩
  · unfold Plan.RoutesJoins
    decide
  · exact List.forall_mem_singleton.mpr ⟨rfl, List.forall_mem_cons.mpr ⟨rfl, List.forall_mem_singleton.mpr rfl⟩⟩

/-- A path in a join condition has no join of the query's own behind it. Where the select list holds the same path, the
condition uses the join that is generated for it and written behind the condition, and without that the query is
refused. -/
theorem compile_joinCondition_generated :
    (∃ query s scope, compile tracker .postgres tasksBesideClients = .ok query ∧
      tasksBesideClients.resolve tracker = .ok s ∧ Scope.ofPlan tracker [] tasksBesideClients = .ok scope ∧
      scope.invented = ["task_parent"] ∧ s.joinColumns.map (·.1) = ["task_parent", "client"] ∧
      s.tables.map FromTable.name = ["task", "client", "task_parent"] ∧ ¬tasksBesideClients.RoutesJoins) ∧
    compile tracker .postgres { tasksBesideClients with projections := [.entity (taskAs "task")] } =
      .error (.invalidPlan (.hopInJoinCondition "task.parent.title" "parent")) := by
  refine ⟨⟨_, _, _, rfl, rfl, rfl, rfl, rfl, rfl, ?_⟩, rfl⟩
  unfold Plan.RoutesJoins
  decide

end EntityMapper
