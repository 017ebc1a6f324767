import EntityMapper.Proofs.Compile.Resolution
import EntityMapper.Proofs.Query.Paths

namespace EntityMapper

/-- Errors that no plan accounts for: an association of a path that was left without a join, and a fault that only a
text describes, such as that no scope is open. -/
def Error.isInternal : Error → Bool
  | invalidPlan (.uncoveredPath _) | invalidPlan (.stated _) => true
  | _ => false

variable {registry : Registry} {outer scopes : List Scope} {s : Scope} {clause : Clause} {role : Role} {e : Error}

theorem external_of_describe {name : String} (run : registry.describe name = .error e) : e.isInternal = false := by
  rw [Registry.describe_error run]
  rfl

namespace Scope

theorem declare_error {a : Alias} (run : declare outer s a = .error e) : e.isInternal = false := by
  unfold declare at run
  split at run
  · cases run
    rfl
  · cases run

theorem declareJoin_error {j : Join} (run : declareJoin outer s j = .error e) : e.isInternal = false := by
  unfold declareJoin at run
  split at run
  · dsimp only at run
    split at run
    · cases run
      rfl
    split at run
    · cases run
      rfl
    split at run
    · cases run
      rfl
    rcases Except.bind_eq_error run with failed | ⟨_, _, run⟩
    · exact declare_error failed
    · cases run
  · split at run
    · cases run
      rfl
    · exact declare_error run

theorem cover_error {path : Path} {inCondition : Bool} {hops : List Association} {current : String}
    (run : cover registry outer path inCondition hops current s = .error e) : e.isInternal = false := by
  induction hops generalizing current s with
  | nil => cases run
  | cons hop rest ih =>
    unfold cover at run
    split at run
    · exact ih run
    split at run
    · cases run
      rfl
    split at run
    · cases run
      rfl
    rcases Except.bind_eq_error run with failed | ⟨_, _, run⟩
    · exact external_of_describe failed
    · exact ih run

theorem coverPath_error {path : Path} {inCondition : Bool}
    (run : coverPath registry outer s path inCondition = .error e) : e.isInternal = false := by
  unfold coverPath at run
  split at run
  · cases run
  split at run
  · exact cover_error run
  split at run
  · cases run
    rfl
  · cases run
    rfl

theorem ofPlan_error {p : Plan} (run : ofPlan registry outer p = .error e) : e.isInternal = false := by
  unfold ofPlan at run
  split at run
  · cases run
    rfl
  rcases Except.bind_eq_error run with failed | ⟨_, _, run⟩
  · obtain ⟨_, _, _, failed⟩ := Except.foldlM_error failed
    exact declare_error failed
  rcases Except.bind_eq_error run with failed | ⟨_, _, run⟩
  · obtain ⟨_, _, _, failed⟩ := Except.foldlM_error failed
    exact declareJoin_error failed
  · obtain ⟨_, _, _, failed⟩ := Except.foldlM_error run
    exact coverPath_error failed

theorem find?_of_mem_names {name : String} (member : name ∈ s.names) : ∃ a, s.find? name = some a := by
  obtain ⟨a, inside, rfl⟩ := List.mem_map.mp member
  cases found : s.find? a.name with
  | some other => exact ⟨other, rfl⟩
  | none =>
    have absent := List.find?_eq_none.mp found a inside
    simp at absent

/-- The paths for which joins are generated are never left without one. -/
theorem Opens.locate_error {p : Plan} (opens : s.Opens registry outer p) {path : Path} {inCondition : Bool}
    (member : (path, inCondition) ∈ p.pathUses) (run : locate (s :: outer) path = .error e) : e.isInternal = false := by
  unfold locate at run
  split at run
  case h_1 =>
    cases run
    rfl
  case h_2 other a found =>
    split at run
    · cases run
      rfl
    by_cases direct : path.hops = []
    · rw [direct] at run
      cases run
    · obtain ⟨root, last, followed⟩ := opens.follows _ member direct
      obtain ⟨own, atRoot⟩ := find?_of_mem_names root
      rw [List.findSome?_cons, atRoot] at found
      cases found
      rw [followed] at run
      cases run

end Scope

theorem checkProjections_error {projections : List Projection} (run : checkProjections s role projections = .error e) :
    e.isInternal = false := by
  unfold checkProjections at run
  split at run
  · cases run
    rfl
  split at run
  · cases run
    rfl
  · cases run

namespace Plan

theorem checkGrouping_error {p : Plan} (run : p.checkGrouping = .error e) : e.isInternal = false := by
  have faults {item : Projection} {fault : PlanFault} (found : p.groupingFault? item = some fault) :
      (Error.invalidPlan fault).isInternal = false := by
    unfold groupingFault? at found
    split at found
    · split at found
      · cases found
      · cases found
        rfl
    · cases found
    · split at found
      · cases found
      · cases found
        rfl
  unfold checkGrouping at run
  split at run
  · cases run
  split at run
  case h_1 fault found =>
    cases run
    obtain ⟨item, _, own⟩ := List.exists_of_findSome?_eq_some found
    exact faults own
  case h_2 =>
    split at run
    · cases run
      rfl
    · cases run

theorem fetchJoins_error {owners : List String} {js : List Join} (run : fetchJoins owners js = .error e) :
    e.isInternal = false := by
  induction js generalizing owners with
  | nil => cases run
  | cons j rest ih =>
    unfold fetchJoins at run
    split at run
    · cases run
      rfl
    split at run
    · cases run
      rfl
    split at run
    · cases run
      rfl
    rcases Except.bind_eq_error run with failed | ⟨_, _, run⟩
    · exact ih failed
    · cases run

theorem fetches_error {p : Plan} (run : p.fetches role = .error e) : e.isInternal = false := by
  simp only [fetches] at run
  split at run
  · cases run
  split at run
  · cases run
    rfl
  · cases run
    rfl
  · exact fetchJoins_error run
  · exact fetchJoins_error run

end Plan

/-- Why expressions and plans may be refused in the scopes: a path is located nowhere, or a subquery is refused, or for
something that the plan accounts for. -/
inductive Fails (registry : Registry) (scopes : List Scope) (exprs : List Expr) (plans : List Plan) (e : Error) : Prop
  | external : e.isInternal = false → Fails registry scopes exprs plans e
  | path {expr : Expr} {path : Path} : expr ∈ exprs → expr.path? = some path → locate scopes path = .error e →
      Fails registry scopes exprs plans e
  | term {expr : Expr} {q : Plan} {role : Role} : expr ∈ exprs → expr.plan? = some q →
      Select.ofPlan registry scopes role q = .error e → Fails registry scopes exprs plans e
  | plan {q : Plan} {role : Role} : q ∈ plans → Select.ofPlan registry scopes role q = .error e →
      Fails registry scopes exprs plans e

namespace Fails

variable {exprs exprs' : List Expr} {plans plans' : List Plan}

theorem mono (fails : Fails registry scopes exprs plans e) (es : exprs ⊆ exprs') (qs : plans ⊆ plans') :
    Fails registry scopes exprs' plans' e := by
  cases fails with
  | external own => exact .external own
  | path listed found failed => exact .path (es listed) found failed
  | term listed found failed => exact .term (es listed) found failed
  | plan listed failed => exact .plan (qs listed) failed

theorem ofExpr : ∀ expr : Expr, Term.ofExpr registry scopes clause expr = .error e →
    Fails registry scopes [expr] plans e
  | .path p, run => by
    rcases Except.bind_eq_error run with failed | ⟨_, _, run⟩
    · exact .path List.mem_cons_self rfl failed
    · cases run
  | .literal _, run => nomatch run
  | .aggregate f argument distinct, run => by
    unfold Term.ofExpr at run
    split at run
    · cases run
      exact .external rfl
    split at run
    · cases run
      exact .external rfl
    rcases Except.bind_eq_error run with failed | ⟨_, _, run⟩
    · cases ofExpr argument failed with
      | external own => exact .external own
      | path listed found located =>
        cases List.mem_singleton.mp listed
        exact .path List.mem_cons_self found located
      | term listed found refused =>
        cases List.mem_singleton.mp listed
        exact .term List.mem_cons_self found refused
      | plan listed refused => exact .plan listed refused
    · cases run
  | .subquery q, run => by
    rcases Except.bind_eq_error run with failed | ⟨_, _, run⟩
    · exact .term List.mem_cons_self rfl failed
    · cases run

theorem ofListed {es : List Expr} {expr : Expr} (listed : expr ∈ es)
    (failed : Term.ofExpr registry scopes clause expr = .error e) : Fails registry scopes es plans e :=
  (ofExpr expr failed).mono (List.cons_subset.mpr ⟨listed, List.nil_subset es⟩) (List.Subset.refl plans)

theorem ofExprs {es : List Expr} (run : termsOfExprs registry scopes clause es = .error e) :
    Fails registry scopes es plans e := by
  rw [termsOfExprs_eq] at run
  obtain ⟨expr, listed, failed⟩ := Except.mapM_error run
  exact ofListed listed failed

mutual

theorem ofPredicate : ∀ p : Predicate, Condition.ofPredicate registry scopes clause p = .error e →
    Fails registry scopes p.exprs p.plans e
  | .compare left op right, run => by
    rcases Except.bind_eq_error run with failed | ⟨_, _, run⟩
    · exact ofListed List.mem_cons_self failed
    rcases Except.bind_eq_error run with failed | ⟨_, _, run⟩
    · exact ofListed (List.mem_cons_of_mem _ List.mem_cons_self) failed
    · cases run
  | .between expr low high, run => by
    rcases Except.bind_eq_error run with failed | ⟨_, _, run⟩
    · exact ofListed List.mem_cons_self failed
    rcases Except.bind_eq_error run with failed | ⟨_, _, run⟩
    · exact ofListed (List.mem_cons_of_mem _ List.mem_cons_self) failed
    rcases Except.bind_eq_error run with failed | ⟨_, _, run⟩
    · exact ofListed (List.mem_cons_of_mem _ (List.mem_cons_of_mem _ List.mem_cons_self)) failed
    · cases run
  | .inValues expr values negated, run => by
    unfold Condition.ofPredicate at run
    split at run
    · cases run
    rcases Except.bind_eq_error run with failed | ⟨_, _, run⟩
    · exact ofListed List.mem_cons_self failed
    rcases Except.bind_eq_error run with failed | ⟨_, _, run⟩
    · exact (ofExprs failed).mono (List.subset_cons_self _ _) (List.Subset.refl _)
    · cases run
  | .inPlan expr q negated, run => by
    rcases Except.bind_eq_error run with failed | ⟨_, _, run⟩
    · exact ofExpr expr failed
    rcases Except.bind_eq_error run with failed | ⟨_, _, run⟩
    · exact .plan List.mem_cons_self failed
    · cases run
  | .isNull expr negated, run => by
    rcases Except.bind_eq_error run with failed | ⟨_, _, run⟩
    · exact ofExpr expr failed
    · cases run
  | .exists q negated, run => by
    rcases Except.bind_eq_error run with failed | ⟨_, _, run⟩
    · exact .plan List.mem_cons_self failed
    · cases run
  | .and items, run => by
    rcases Except.bind_eq_error run with failed | ⟨_, _, run⟩
    · exact ofPredicates items failed
    · cases run
  | .or items, run => by
    rcases Except.bind_eq_error run with failed | ⟨_, _, run⟩
    · exact ofPredicates items failed
    · cases run
  | .not inner, run => by
    rcases Except.bind_eq_error run with failed | ⟨_, _, run⟩
    · exact ofPredicate inner failed
    · cases run
termination_by structural p => p

theorem ofPredicates : ∀ ps : List Predicate, conditionsOfPredicates registry scopes clause ps = .error e →
    Fails registry scopes (Predicate.exprsOfAll ps) (Predicate.plansOfAll ps) e
  | [], run => nomatch run
  | p :: rest, run => by
    rcases Except.bind_eq_error run with failed | ⟨_, _, run⟩
    · exact (ofPredicate p failed).mono (List.subset_append_left _ _) (List.subset_append_left _ _)
    rcases Except.bind_eq_error run with failed | ⟨_, _, run⟩
    · exact (ofPredicates rest failed).mono (List.subset_append_right _ _) (List.subset_append_right _ _)
    · cases run
termination_by structural ps => ps

end

theorem ofConditions {ps : List Predicate} (run : conditionsOfPredicates registry scopes clause ps = .error e) :
    Fails registry scopes (ps.flatMap Predicate.exprs) (ps.flatMap Predicate.plans) e := by
  rw [conditionsOfPredicates_eq] at run
  obtain ⟨p, listed, failed⟩ := Except.mapM_error run
  exact (ofPredicate p failed).mono (fun _ inside => List.mem_flatMap.mpr ⟨p, listed, inside⟩)
    fun _ inside => List.mem_flatMap.mpr ⟨p, listed, inside⟩

theorem ofJoins {js : List Join} (run : clausesOfJoins registry scopes js = .error e) :
    Fails registry scopes ((js.filterMap (·.condition)).flatMap Predicate.exprs)
      ((js.filterMap (·.condition)).flatMap Predicate.plans) e := by
  rw [clausesOfJoins_eq] at run
  obtain ⟨j, listed, failed⟩ := Except.mapM_error run
  cases j with
  | mk kind target association condition fetch =>
    rcases Except.bind_eq_error failed with failed | ⟨_, _, run⟩
    · cases condition with
      | none => cases failed
      | some p =>
        have own : p ∈ js.filterMap (·.condition) := List.mem_filterMap.mpr ⟨_, listed, rfl⟩
        rcases Except.bind_eq_error failed with failed | ⟨_, _, run⟩
        · exact (ofPredicate p failed).mono (fun _ inside => List.mem_flatMap.mpr ⟨p, own, inside⟩)
            fun _ inside => List.mem_flatMap.mpr ⟨p, own, inside⟩
        · cases run
    · cases run

theorem ofProjections {ps : List Projection} (run : outputsOfProjections registry scopes ps = .error e) :
    Fails registry scopes (ps.filterMap (·.expr?)) plans e := by
  rw [outputsOfProjections_eq] at run
  obtain ⟨p, listed, failed⟩ := Except.mapM_error run
  cases p with
  | expr expr =>
    rcases Except.bind_eq_error failed with failed | ⟨_, _, run⟩
    · exact ofListed (List.mem_filterMap.mpr ⟨_, listed, rfl⟩) failed
    · cases run
  | entity a => cases failed

theorem ofItems {items : List SortItem} (run : keysOfItems registry scopes items = .error e) :
    Fails registry scopes (items.map (·.expr)) plans e := by
  rw [keysOfItems_eq] at run
  obtain ⟨item, listed, failed⟩ := Except.mapM_error run
  cases item
  rcases Except.bind_eq_error failed with failed | ⟨_, _, run⟩
  · exact ofListed (List.mem_map.mpr ⟨_, listed, rfl⟩) failed
  · cases run

/-- A plan accounts for every refusal in its own scope when its subqueries account for theirs. -/
theorem external_of_opens {p : Plan} (fails : Fails registry (s :: outer) p.exprs (p.conditions.flatMap Predicate.plans) e)
    (opens : s.Opens registry outer p)
    (inner : ∀ q ∈ p.inner, ∀ role e, Select.ofPlan registry (s :: outer) role q = .error e → e.isInternal = false) :
    e.isInternal = false := by
  cases fails with
  | external own => exact own
  | path listed found failed =>
    rcases List.mem_append.mp listed with free | joined
    · exact opens.locate_error (Plan.mem_pathUses.mpr ⟨_, free, found⟩ : (_, false) ∈ p.pathUses) failed
    · exact opens.locate_error (Plan.mem_pathUses.mpr ⟨_, joined, found⟩ : (_, true) ∈ p.pathUses) failed
  | term listed found failed =>
    exact inner _ (List.mem_append_left _ (List.mem_filterMap.mpr ⟨_, listed, found⟩)) _ _ failed
  | plan listed failed => exact inner _ (List.mem_append_right _ listed) _ _ failed

end Fails

namespace Plan

variable (p : Plan)

theorem joinConditions_subset : p.joinConditions.flatMap Predicate.exprs ⊆ p.exprs ∧
    p.joinConditions.flatMap Predicate.plans ⊆ p.conditions.flatMap Predicate.plans := by
  refine ⟨List.subset_append_right _ _, fun q member => ?_⟩
  rw [conditions, List.flatMap_append]
  exact List.mem_append_left _ member

theorem exprs_subset : p.projections.filterMap (·.expr?) ⊆ p.exprs ∧ p.groups ⊆ p.exprs ∧
    p.orderings.map (·.expr) ⊆ p.exprs := by
  refine ⟨fun e member => ?_, fun e member => ?_, fun e member => ?_⟩
  all_goals simp only [exprs, freeExprs, List.mem_append]
  · exact .inl (.inl (.inl (.inl member)))
  · exact .inl (.inl (.inr member))
  · exact .inl (.inr member)

theorem filters_subset {ps : List Predicate} (listed : ps ⊆ p.filters ++ p.havings) :
    ps.flatMap Predicate.exprs ⊆ p.exprs ∧ ps.flatMap Predicate.plans ⊆ p.conditions.flatMap Predicate.plans := by
  refine ⟨fun e member => ?_, fun q member => ?_⟩
  · obtain ⟨c, inside, within⟩ := List.mem_flatMap.mp member
    simp only [exprs, freeExprs, List.mem_append]
    exact .inl (.inl (.inl (.inr (List.mem_flatMap.mpr ⟨c, listed inside, within⟩))))
  · obtain ⟨c, inside, within⟩ := List.mem_flatMap.mp member
    exact List.mem_flatMap.mpr ⟨c, List.mem_append_right _ (listed inside), within⟩

end Plan

/-- A query is refused for itself or for what it is made of. -/
theorem Select.ofPlan_error {p : Plan} (run : Select.ofPlan registry outer role p = .error e) : e.isInternal = false ∨
    ∃ scope, Scope.ofPlan registry outer p = .ok scope ∧
      Fails registry (scope :: outer) p.exprs (p.conditions.flatMap Predicate.plans) e := by
  cases p with
  | mk projections sources joins filters groups havings orderings offset limit distinct =>
    rcases Except.bind_eq_error run with failed | ⟨scope, opened, run⟩
    · exact .inl (Scope.ofPlan_error failed)
    rcases Except.bind_eq_error run with failed | ⟨_, _, run⟩
    · exact .inl (checkProjections_error failed)
    rcases Except.bind_eq_error run with failed | ⟨_, _, run⟩
    · exact .inl (Plan.checkGrouping_error failed)
    obtain ⟨projected, grouped, ordered⟩ := Plan.exprs_subset
      ⟨projections, sources, joins, filters, groups, havings, orderings, offset, limit, distinct⟩
    obtain ⟨joined, queried⟩ := Plan.joinConditions_subset
      ⟨projections, sources, joins, filters, groups, havings, orderings, offset, limit, distinct⟩
    have filtered := Plan.filters_subset
      ⟨projections, sources, joins, filters, groups, havings, orderings, offset, limit, distinct⟩
      (List.subset_append_left filters havings)
    have restricted := Plan.filters_subset
      ⟨projections, sources, joins, filters, groups, havings, orderings, offset, limit, distinct⟩
      (List.subset_append_right filters havings)
    refine .inr ⟨scope, opened, ?_⟩
    rcases Except.bind_eq_error run with failed | ⟨_, _, run⟩
    · exact (Fails.ofProjections failed).mono projected (List.Subset.refl _)
    rcases Except.bind_eq_error run with failed | ⟨_, _, run⟩
    · exact .external (Plan.fetches_error failed)
    rcases Except.bind_eq_error run with failed | ⟨_, _, run⟩
    · exact (Fails.ofJoins failed).mono joined queried
    rcases Except.bind_eq_error run with failed | ⟨_, _, run⟩
    · exact (Fails.ofConditions failed).mono filtered.1 filtered.2
    rcases Except.bind_eq_error run with failed | ⟨_, _, run⟩
    · exact (Fails.ofExprs failed).mono grouped (List.Subset.refl _)
    rcases Except.bind_eq_error run with failed | ⟨_, _, run⟩
    · exact (Fails.ofConditions failed).mono restricted.1 restricted.2
    split at run
    · cases run
    rcases Except.bind_eq_error run with failed | ⟨_, _, run⟩
    · exact (Fails.ofItems failed).mono ordered (List.Subset.refl _)
    · cases run

/-- A plan accounts for whatever it is refused for, at any depth of subqueries. -/
theorem Select.external_of_ofPlan (p : Plan) : ∀ outer role e, Select.ofPlan registry outer role p = .error e →
    e.isInternal = false := by
  induction p using Plan.inner_induction with
  | step p inner =>
    intro outer role e run
    rcases ofPlan_error run with own | ⟨scope, opened, fails⟩
    · exact own
    · exact fails.external_of_opens (Scope.ofPlan_opens opened) fun q member => inner q member (scope :: outer)

theorem external_of_counting {p : Plan} (run : p.counting registry = .error e) : e.isInternal = false := by
  have external {scope : Scope} (opened : Scope.ofPlan registry [] p = .ok scope)
      (fails : Fails registry [scope] p.exprs (p.conditions.flatMap Predicate.plans) e) : e.isInternal = false :=
    fails.external_of_opens (Scope.ofPlan_opens opened) fun q _ role e => Select.external_of_ofPlan q _ role e
  rcases Except.bind_eq_error run with failed | ⟨scope, opened, run⟩
  · exact Scope.ofPlan_error failed
  rcases Except.bind_eq_error run with failed | ⟨_, _, run⟩
  · exact checkProjections_error failed
  rcases Except.bind_eq_error run with failed | ⟨_, _, run⟩
  · exact Plan.fetches_error failed
  rcases Except.bind_eq_error run with failed | ⟨_, _, run⟩
  · obtain ⟨joined, queried⟩ := p.joinConditions_subset
    exact external opened ((Fails.ofJoins failed).mono joined queried)
  rcases Except.bind_eq_error run with failed | ⟨_, _, run⟩
  · obtain ⟨es, qs⟩ := p.filters_subset (List.subset_append_left _ _)
    exact external opened ((Fails.ofConditions failed).mono es qs)
  · cases run

theorem external_of_compile {d : Dialect} {p : Plan} (run : compile registry d p = .error e) : e.isInternal = false := by
  rcases Except.bind_eq_error run with failed | ⟨_, _, run⟩
  · exact Select.external_of_ofPlan p [] .rows e failed
  · cases run

theorem external_of_compileCount {d : Dialect} {p : Plan} (run : compileCount registry d p = .error e) :
    e.isInternal = false := by
  rcases Except.bind_eq_error run with failed | ⟨_, _, run⟩
  · unfold Plan.resolveCount at failed
    split at failed
    · rcases Except.bind_eq_error failed with failed | ⟨_, _, run⟩
      · exact Select.external_of_ofPlan p [] .counted e failed
      · cases run
    · rcases Except.bind_eq_error failed with failed | ⟨_, _, run⟩
      · exact external_of_counting failed
      · cases run
  · cases run

end EntityMapper
