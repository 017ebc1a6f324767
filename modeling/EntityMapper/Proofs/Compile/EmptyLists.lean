import EntityMapper.Proofs.Compile.Acceptance
import EntityMapper.Proofs.Compile.Parameters
import EntityMapper.Proofs.Query.Gaps

namespace EntityMapper

/-- The join without what its condition says. -/
def Join.bare (j : Join) : Join := { j with condition := j.condition.map fun _ => .and [] }

section Bare

theorem Join.filter_bare (js : List Join) : (js.map bare).filter (·.fetch) = (js.filter (·.fetch)).map bare :=
  List.filter_map

theorem declareJoin_bare (outer : List Scope) (s : Scope) (js : List Join) :
    (js.map Join.bare).foldlM (Scope.declareJoin outer) s = js.foldlM (Scope.declareJoin outer) s := by
  rw [List.foldlM_map]
  refine congrArg (fun f => js.foldlM f s) (funext fun t => funext fun j => ?_)
  obtain ⟨kind, target, association, condition, fetch⟩ := j
  cases condition <;> rfl

theorem fetchJoins_bare (owners : List String) (js : List Join) :
    fetchJoins owners (js.map Join.bare) = fetchJoins owners js := by
  induction js generalizing owners with
  | nil => rfl
  | cons j rest ih =>
    have condition : j.bare.condition.isSome = j.condition.isSome := Option.isSome_map
    simp only [List.map_cons, fetchJoins, condition, ih]
    rfl

end Bare

/-- Plans that differ neither in what they read from nor in what is selected, followed, grouped and fetched. -/
structure Plan.Alike (p q : Plan) : Prop where
  sources : p.sources = q.sources
  joins : p.joins.map Join.bare = q.joins.map Join.bare
  uses : p.pathUses = q.pathUses
  empty : p.projections.isEmpty = q.projections.isEmpty
  selected : p.projections.filterMap (·.source?) = q.projections.filterMap (·.source?)
  grouping : p.checkGrouping = q.checkGrouping

namespace Plan.Alike

variable {p q : Plan} (alike : p.Alike q)

include alike

theorem scope (registry : Registry) (outer : List Scope) :
    Scope.ofPlan registry outer p = Scope.ofPlan registry outer q := by
  have joined (s : Scope) : p.joins.foldlM (Scope.declareJoin outer) s = q.joins.foldlM (Scope.declareJoin outer) s := by
    rw [← declareJoin_bare, alike.joins, declareJoin_bare]
  simp only [Scope.ofPlan, alike.sources, alike.uses, joined]

theorem projected (role : Role) (scope : Scope) :
    checkProjections scope role p.projections = checkProjections scope role q.projections := by
  unfold checkProjections
  rw [alike.empty, alike.selected]

theorem fetched (role : Role) : p.fetches role = q.fetches role := by
  have fetching : (p.joins.filter (·.fetch)).map Join.bare = (q.joins.filter (·.fetch)).map Join.bare := by
    rw [← Join.filter_bare, alike.joins, Join.filter_bare]
  have none : (p.joins.filter (·.fetch)).isEmpty = (q.joins.filter (·.fetch)).isEmpty := by
    rw [← List.isEmpty_map (f := Join.bare), fetching, List.isEmpty_map]
  have bound (owners : List String) :
      fetchJoins owners (p.joins.filter (·.fetch)) = fetchJoins owners (q.joins.filter (·.fetch)) := by
    rw [← fetchJoins_bare, fetching, fetchJoins_bare]
  simp only [Plan.fetches, none, bound, alike.selected]

theorem sound (role : Role) (scope : Scope) : p.Sound role scope ↔ q.Sound role scope := by
  have projected := alike.projected role scope
  have fetched := alike.fetched role
  have grouped := alike.grouping
  constructor
  · rintro ⟨a, b, c⟩
    exact ⟨projected ▸ a, grouped ▸ b, fetched ▸ c⟩
  · rintro ⟨a, b, c⟩
    exact ⟨projected ▸ a, grouped ▸ b, fetched ▸ c⟩

end Plan.Alike

/-- The paths that joins are looked for are those of the clauses. -/
theorem Plan.pathUses_congr {p q : Plan}
    (projected : (p.projections.filterMap (·.expr?)).filterMap Expr.path? =
      (q.projections.filterMap (·.expr?)).filterMap Expr.path?)
    (joined : (p.joinConditions.flatMap Predicate.exprs).filterMap Expr.path? =
      (q.joinConditions.flatMap Predicate.exprs).filterMap Expr.path?)
    (restricted : ((p.filters ++ p.havings).flatMap Predicate.exprs).filterMap Expr.path? =
      ((q.filters ++ q.havings).flatMap Predicate.exprs).filterMap Expr.path?)
    (grouped : p.groups.filterMap Expr.path? = q.groups.filterMap Expr.path?)
    (ordered : (p.orderings.map (·.expr)).filterMap Expr.path? = (q.orderings.map (·.expr)).filterMap Expr.path?) :
    p.pathUses = q.pathUses := by
  have uses (inCondition : Bool) (es : List Expr) :
      es.filterMap (fun e => e.path?.map (·, inCondition)) = (es.filterMap Expr.path?).map (·, inCondition) :=
    List.map_filterMap.symm
  unfold pathUses
  simp only [uses, flatMap_joinConditions, projected, joined, restricted, grouped, ordered]

theorem Plan.checkGrouping_congr {p q : Plan} (aggregates : p.projectsAggregate = q.projectsAggregate)
    (ungrouped : p.groups.isEmpty = q.groups.isEmpty)
    (faults : p.projections.findSome? p.groupingFault? = q.projections.findSome? q.groupingFault?)
    (fetching : p.joins.any (·.fetch) = q.joins.any (·.fetch)) : p.checkGrouping = q.checkGrouping := by
  simp only [checkGrouping, aggregates, ungrouped, faults, fetching]

namespace PlanGap

variable {a b : Predicate} (same : a.paths = b.paths)

include same

theorem pathUses_fill (g : PlanGap) : (g.fill a).pathUses = (g.fill b).pathUses := by
  cases g with
  | projection plan before expr after =>
    refine Plan.pathUses_congr ?_ rfl rfl rfl rfl
    simp [fill, Projection.expr?, ExprGap.path?_fill]
  | join plan before join condition after =>
    refine Plan.pathUses_congr rfl ?_ rfl rfl rfl
    have split (c : Predicate) : Plan.joinConditions ((PlanGap.join plan before join condition after).fill c) =
        before.filterMap (·.condition) ++ condition.fill c :: after.filterMap (·.condition) := by
      simp [fill, Plan.joinConditions]
    rw [split, split, Predicate.paths_split, Predicate.paths_split, condition.paths_fill same]
  | filter plan before condition after =>
    refine Plan.pathUses_congr rfl rfl ?_ rfl rfl
    simp only [fill, List.append_assoc, List.cons_append]
    rw [Predicate.paths_split, Predicate.paths_split, condition.paths_fill same]
  | group plan before expr after =>
    refine Plan.pathUses_congr rfl rfl rfl ?_ rfl
    simp [fill, ExprGap.path?_fill]
  | having plan before condition after =>
    refine Plan.pathUses_congr rfl rfl ?_ rfl rfl
    simp only [fill, ← List.append_assoc]
    rw [Predicate.paths_split, Predicate.paths_split, condition.paths_fill same]
  | ordering plan before item expr after =>
    refine Plan.pathUses_congr rfl rfl rfl rfl ?_
    simp [fill, ExprGap.path?_fill]

omit same

theorem checkGrouping_fill (a b : Predicate) (g : PlanGap) : (g.fill a).checkGrouping = (g.fill b).checkGrouping := by
  cases g with
  | projection plan before expr after =>
    have fault (c : Predicate) (p : Plan) : p.groupingFault? (.expr (expr.fill c)) = none := by cases expr <;> rfl
    refine Plan.checkGrouping_congr ?_ rfl ?_ rfl
    · simp [fill, Plan.projectsAggregate, Projection.expr?, expr.isAggregate_fill a b]
    · simp only [fill, List.findSome?_append, List.findSome?_cons, fault]
      rfl
  | group plan before expr after =>
    have grouped : (fill a (.group plan before expr after)).groupsBy =
        (fill b (.group plan before expr after)).groupsBy := by
      funext path
      cases expr <;> simp [fill, ExprGap.fill, Plan.groupsBy]
    have filled {c : Predicate} : (before ++ expr.fill c :: after).isEmpty = false := by cases before <;> rfl
    refine Plan.checkGrouping_congr rfl (filled.trans filled.symm) ?_ rfl
    refine congrArg plan.projections.findSome? (funext fun item => ?_)
    unfold Plan.groupingFault?
    rw [grouped]
  | join plan before join condition after => exact Plan.checkGrouping_congr rfl rfl rfl (by simp [fill])
  | filter | having | ordering => rfl

include same

/-- Whichever of two conditions with the same paths fills the gap, nothing differs but the clause with the gap. -/
theorem alike (g : PlanGap) : (g.fill a).Alike (g.fill b) where
  sources := by cases g <;> rfl
  joins := by cases g <;> simp [fill, Join.bare]
  uses := g.pathUses_fill same
  empty := by
    cases g with
    | projection plan before expr after => cases before <;> rfl
    | _ => rfl
  selected := by cases g <;> simp [fill, Projection.source?]
  grouping := g.checkGrouping_fill a b

end PlanGap

/-- The query opens a scope inside of those around it, and in these something holds. -/
def Plan.Opens (registry : Registry) (outer : List Scope) (p : Plan) (inside : List Scope → Prop) : Prop :=
  ∃ scope, Scope.ofPlan registry outer p = .ok scope ∧ inside (scope :: outer)

section Operands

variable (registry : Registry) (operand : Expr) (negated : Bool)

mutual

/-- The operand of a membership in an empty list is accepted where the list is, in the scopes and the clause that are
found on the way to it. What is looked for in another empty list is accepted whatever it is. -/
def ExprGap.Allows (scopes : List Scope) (clause : Clause) : ExprGap → Prop
  | .aggregate _ argument _ => argument.Allows scopes clause
  | .subquery plan => (plan.fill (.inValues operand [] negated)).Opens registry scopes fun scopes =>
      plan.Allows scopes .values
termination_by structural g => g

def PredicateGap.Allows (scopes : List Scope) (clause : Clause) : PredicateGap → Prop
  | .here => Accepted (Term.ofExpr registry scopes clause operand)
  | .compareLeft expr _ _ | .compareRight _ _ expr | .between expr _ _ | .betweenLow _ expr _ | .betweenHigh _ _ expr
  | .inValuesItem _ _ expr _ _ | .inPlan expr _ _ | .isNull expr _ => expr.Allows scopes clause
  | .inValues expr values _ => values ≠ [] → expr.Allows scopes clause
  | .inPlanInner _ plan _ => (plan.fill (.inValues operand [] negated)).Opens registry scopes fun scopes =>
      plan.Allows scopes .values
  | .exists plan _ => (plan.fill (.inValues operand [] negated)).Opens registry scopes fun scopes =>
      plan.Allows scopes .existence
  | .and _ item _ | .or _ item _ | .not item => item.Allows scopes clause
termination_by structural g => g

/-- The scopes are those inside of the plan. -/
def PlanGap.Allows (scopes : List Scope) (role : Role) : PlanGap → Prop
  | .projection _ _ expr _ => expr.Allows scopes .select
  | .join _ _ _ condition _ => condition.Allows scopes .join
  | .filter _ _ condition _ => condition.Allows scopes .filter
  | .group _ _ expr _ => expr.Allows scopes .groupBy
  | .having _ _ condition _ => condition.Allows scopes .having
  | .ordering _ _ _ expr _ => role ≠ .counted → expr.Allows scopes .orderBy
termination_by structural g => g

end

end Operands

theorem Plan.resolvable_iff {registry : Registry} {scopes : List Scope} {role : Role} {p : Plan} :
    p.Resolvable registry scopes role ↔
      (∀ item ∈ p.projections, Accepted (Output.ofProjection registry scopes item)) ∧
        (∀ j ∈ p.joins, Accepted (JoinClause.ofJoin registry scopes j)) ∧
        (∀ c ∈ p.filters, Accepted (Condition.ofPredicate registry scopes .filter c)) ∧
        (∀ e ∈ p.groups, Accepted (Term.ofExpr registry scopes .groupBy e)) ∧
        (∀ c ∈ p.havings, Accepted (Condition.ofPredicate registry scopes .having c)) ∧
        (role ≠ .counted → ∀ item ∈ p.orderings, Accepted (SortKey.ofItem registry scopes item)) :=
  ⟨fun r => ⟨r.projections, r.joins, r.filters, r.groups, r.havings, r.orderings⟩,
    fun ⟨projections, joins, filters, groups, havings, orderings⟩ =>
      ⟨projections, joins, filters, groups, havings, orderings⟩⟩

/-- One member of a list is replaced by another that has a property under a condition. -/
theorem forall_mem_replaced {α : Type} {P : α → Prop} {x y : α} {A : Prop} (before after : List α)
    (own : P y ↔ P x ∧ A) : (∀ z ∈ before ++ y :: after, P z) ↔ (∀ z ∈ before ++ x :: after, P z) ∧ A := by
  simp only [List.forall_mem_append, List.forall_mem_cons, own]
  tauto

/-- Of plans that are alike one is accepted when the other one is and more is said of the parts of its clauses. -/
theorem Select.accepted_alike {registry : Registry} (outer : List Scope) {role : Role} {p q : Plan} (alike : q.Alike p)
    {A : List Scope → Prop}
    (parts : ∀ scopes, q.Resolvable registry scopes role ↔ p.Resolvable registry scopes role ∧ A scopes) :
    Accepted (ofPlan registry outer role q) ↔ Accepted (ofPlan registry outer role p) ∧ p.Opens registry outer A := by
  simp only [accepted_ofPlan, alike.scope, alike.sound, parts, Plan.Opens]
  constructor
  · rintro ⟨scope, opened, sound, resolvable, more⟩
    exact ⟨⟨scope, opened, sound, resolvable⟩, scope, opened, more⟩
  · rintro ⟨⟨scope, opened, sound, resolvable⟩, other, again, more⟩
    cases opened.symm.trans again
    exact ⟨scope, opened, sound, resolvable, more⟩

section Filled

variable {registry : Registry} {operand : Expr} {negated : Bool} (v : Value)

theorem Condition.accepted_literal (scopes : List Scope) (clause : Clause) :
    Accepted (ofPredicate registry scopes clause (.inValues operand [.literal v] negated)) ↔
      Accepted (ofPredicate registry scopes clause (.inValues operand [] negated)) ∧
        Accepted (Term.ofExpr registry scopes clause operand) := by
  have literal : Accepted (Term.ofExpr registry scopes clause (.literal v)) := accepted_ok _
  simp [accepted_inValues, literal]

theorem PlanGap.alike_literal (g : PlanGap) :
    (g.fill (.inValues operand [.literal v] negated)).Alike (g.fill (.inValues operand [] negated)) := by
  refine g.alike ?_
  simp only [Predicate.paths, Predicate.exprs, List.filterMap_cons, Expr.path?, List.filterMap_nil]

mutual

theorem ExprGap.accepted_fill : ∀ (g : ExprGap) (scopes : List Scope) (clause : Clause),
    Accepted (Term.ofExpr registry scopes clause (g.fill (.inValues operand [.literal v] negated))) ↔
      Accepted (Term.ofExpr registry scopes clause (g.fill (.inValues operand [] negated))) ∧
        g.Allows registry operand negated scopes clause
  | .aggregate f argument distinct, scopes, clause => by
    have own := argument.accepted_fill scopes clause
    have kind := argument.isAggregate_fill (.inValues operand [.literal v] negated) (.inValues operand [] negated)
    simp only [ExprGap.fill, Term.accepted_aggregate, ExprGap.Allows, own, kind, and_assoc]
  | .subquery plan, scopes, _ => by
    simp only [ExprGap.fill, Term.accepted_subquery, ExprGap.Allows]
    exact Select.accepted_alike scopes (plan.alike_literal v) fun scopes => plan.resolvable_fill scopes .values
termination_by structural g => g

theorem PredicateGap.accepted_fill : ∀ (g : PredicateGap) (scopes : List Scope) (clause : Clause),
    Accepted (Condition.ofPredicate registry scopes clause (g.fill (.inValues operand [.literal v] negated))) ↔
      Accepted (Condition.ofPredicate registry scopes clause (g.fill (.inValues operand [] negated))) ∧
        g.Allows registry operand negated scopes clause
  | .here, scopes, clause => Condition.accepted_literal v scopes clause
  | .compareLeft left _ _, scopes, clause => by
    simp only [PredicateGap.fill, Condition.accepted_compare, PredicateGap.Allows, left.accepted_fill scopes clause]
    exact and_right_comm
  | .compareRight _ _ right, scopes, clause => by
    simp only [PredicateGap.fill, Condition.accepted_compare, PredicateGap.Allows, right.accepted_fill scopes clause]
    exact and_assoc.symm
  | .between expr _ _, scopes, clause => by
    simp only [PredicateGap.fill, Condition.accepted_between, PredicateGap.Allows, expr.accepted_fill scopes clause]
    exact and_right_comm
  | .betweenLow _ low _, scopes, clause => by
    simp only [PredicateGap.fill, Condition.accepted_between, PredicateGap.Allows, low.accepted_fill scopes clause]
    tauto
  | .betweenHigh _ _ high, scopes, clause => by
    simp only [PredicateGap.fill, Condition.accepted_between, PredicateGap.Allows, high.accepted_fill scopes clause]
    tauto
  | .inValues expr _ _, scopes, clause => by
    simp only [PredicateGap.fill, Condition.accepted_inValues, PredicateGap.Allows, expr.accepted_fill scopes clause]
    tauto
  | .inValuesItem _ before value after _, scopes, clause => by
    have filled (e : Expr) : before ++ e :: after ≠ [] := by simp
    have items := forall_mem_replaced (P := fun e => Accepted (Term.ofExpr registry scopes clause e)) before after
      (value.accepted_fill scopes clause)
    simp only [PredicateGap.fill, Condition.accepted_inValues, PredicateGap.Allows, forall_prop_of_true (filled _), items]
    exact and_assoc.symm
  | .inPlan expr _ _, scopes, clause => by
    simp only [PredicateGap.fill, Condition.accepted_inPlan, PredicateGap.Allows, expr.accepted_fill scopes clause]
    exact and_right_comm
  | .inPlanInner _ plan _, scopes, _ => by
    have inner := Select.accepted_alike scopes (plan.alike_literal v) fun scopes =>
      plan.resolvable_fill scopes .values
    simp only [PredicateGap.fill, Condition.accepted_inPlan, PredicateGap.Allows, inner]
    exact and_assoc.symm
  | .isNull expr _, scopes, clause => by
    simp only [PredicateGap.fill, Condition.accepted_isNull, PredicateGap.Allows]
    exact expr.accepted_fill scopes clause
  | .exists plan _, scopes, _ => by
    simp only [PredicateGap.fill, Condition.accepted_exists, PredicateGap.Allows]
    exact Select.accepted_alike scopes (plan.alike_literal v) fun scopes => plan.resolvable_fill scopes .existence
  | .and before item after, scopes, clause => by
    simp only [PredicateGap.fill, Condition.accepted_and, PredicateGap.Allows]
    exact forall_mem_replaced before after (item.accepted_fill scopes clause)
  | .or before item after, scopes, clause => by
    simp only [PredicateGap.fill, Condition.accepted_or, PredicateGap.Allows]
    exact forall_mem_replaced before after (item.accepted_fill scopes clause)
  | .not inner, scopes, clause => by
    simp only [PredicateGap.fill, Condition.accepted_not, PredicateGap.Allows]
    exact inner.accepted_fill scopes clause
termination_by structural g => g

theorem PlanGap.resolvable_fill : ∀ (g : PlanGap) (scopes : List Scope) (role : Role),
    (g.fill (.inValues operand [.literal v] negated)).Resolvable registry scopes role ↔
      (g.fill (.inValues operand [] negated)).Resolvable registry scopes role ∧
        g.Allows registry operand negated scopes role
  | .projection _ before expr after, scopes, _ => by
    have own := expr.accepted_fill scopes .select
    rw [← Output.accepted_expr, ← Output.accepted_expr] at own
    have items := forall_mem_replaced
      (P := fun item => Accepted (Output.ofProjection registry scopes item)) before after own
    simp only [Plan.resolvable_iff, PlanGap.fill, PlanGap.Allows, items]
    exact and_right_comm
  | .join _ before join condition after, scopes, _ => by
    have own := condition.accepted_fill scopes .join
    rw [← JoinClause.accepted_conditional (j := join), ← JoinClause.accepted_conditional (j := join)] at own
    have items := forall_mem_replaced (P := fun j => Accepted (JoinClause.ofJoin registry scopes j)) before after own
    simp only [Plan.resolvable_iff, PlanGap.fill, PlanGap.Allows, items]
    tauto
  | .filter _ before condition after, scopes, _ => by
    have items := forall_mem_replaced (P := fun c => Accepted (Condition.ofPredicate registry scopes .filter c))
      before after (condition.accepted_fill scopes .filter)
    simp only [Plan.resolvable_iff, PlanGap.fill, PlanGap.Allows, items]
    tauto
  | .group _ before expr after, scopes, _ => by
    have items := forall_mem_replaced (P := fun e => Accepted (Term.ofExpr registry scopes .groupBy e)) before after
      (expr.accepted_fill scopes .groupBy)
    simp only [Plan.resolvable_iff, PlanGap.fill, PlanGap.Allows, items]
    tauto
  | .having _ before condition after, scopes, _ => by
    have items := forall_mem_replaced (P := fun c => Accepted (Condition.ofPredicate registry scopes .having c))
      before after (condition.accepted_fill scopes .having)
    simp only [Plan.resolvable_iff, PlanGap.fill, PlanGap.Allows, items]
    tauto
  | .ordering _ before item expr after, scopes, _ => by
    have own := expr.accepted_fill scopes .orderBy
    rw [← SortKey.accepted_ordered item, ← SortKey.accepted_ordered item] at own
    have items := forall_mem_replaced (P := fun item => Accepted (SortKey.ofItem registry scopes item)) before after own
    simp only [Plan.resolvable_iff, PlanGap.fill, PlanGap.Allows, items]
    tauto
termination_by structural g => g

end

end Filled

/-- A literal may be put into an empty list of a plan, at any depth, exactly if the plan is accepted and what is looked for
in the list is accepted where the list is. As long as the list is empty it is not looked at. -/
theorem compile_literal_iff (registry : Registry) (d : Dialect) (g : PlanGap) (operand : Expr) (negated : Bool)
    (v : Value) : Accepted (compile registry d (g.fill (.inValues operand [.literal v] negated))) ↔
      Accepted (compile registry d (g.fill (.inValues operand [] negated))) ∧
        (g.fill (.inValues operand [] negated)).Opens registry [] fun scopes =>
          g.Allows registry operand negated scopes .rows := by
  have compiled (p : Plan) : Accepted (compile registry d p) ↔ Accepted (Select.ofPlan registry [] .rows p) := accepted_map
  rw [compiled, compiled]
  exact Select.accepted_alike [] (g.alike_literal v) fun scopes => g.resolvable_fill v scopes .rows

/-- The page of owners with its empty list left out. -/
def ownersGap : PlanGap :=
  .filter ownersPage (ownersPage.filters.take 1) (.or [] .here [.compare (ownerOf "a") .ne (.literal .null)]) []

theorem compile_literal_iff_ownersPage : ownersGap.fill (.inValues (.literal (.int 4)) [] true) = ownersPage ∧
    Accepted (compile ⟨[accountEntity]⟩ .mysql
      (ownersGap.fill (.inValues (.literal (.int 4)) [.literal (.int 5)] true))) := by
  refine ⟨rfl, (compile_literal_iff ⟨[accountEntity]⟩ .mysql ownersGap (.literal (.int 4)) true (.int 5)).mpr ?_⟩
  exact ⟨⟨_, rfl⟩, _, rfl, _, rfl⟩

/-- The owners of accounts under a condition. -/
def ownersWhere : PlanGap :=
  .filter ⟨[.expr (ownerOf "a")], [⟨"a", accountEntity⟩], [], [], [], [], [], none, none, false⟩ [] .here []

/-- An alias that no query declares, and an aggregate in a condition on rows, are accepted in front of an empty list and
refused in front of a literal. -/
theorem compile_overlooks_operand :
    (Accepted (compile ⟨[accountEntity]⟩ .postgres (ownersWhere.fill (.inValues (ownerOf "ghost") [] false))) ∧
      ¬Accepted (compile ⟨[accountEntity]⟩ .postgres
        (ownersWhere.fill (.inValues (ownerOf "ghost") [.literal (.text "kim")] false)))) ∧
      Accepted (compile ⟨[accountEntity]⟩ .postgres
        (ownersWhere.fill (.inValues (.aggregate .max (ownerOf "a") false) [] false))) ∧
      ¬Accepted (compile ⟨[accountEntity]⟩ .postgres
        (ownersWhere.fill (.inValues (.aggregate .max (ownerOf "a") false) [.literal (.text "kim")] false))) := by
  refine ⟨⟨⟨_, rfl⟩, ?_⟩, ⟨_, rfl⟩, ?_⟩
  · rintro ⟨query, run⟩
    cases run
  · rintro ⟨query, run⟩
    cases run

end EntityMapper
