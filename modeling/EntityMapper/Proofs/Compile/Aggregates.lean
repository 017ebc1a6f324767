import EntityMapper.Proofs.Compile.Dialects
import EntityMapper.Proofs.Compile.Grouping
import EntityMapper.Proofs.Sql.AggregateCalls

namespace EntityMapper

variable {registry : Registry} {scopes outer : List Scope} {clause : Clause} {role : Role} {p : Plan}

theorem Clause.allowsAggregates_iff : clause.allowsAggregates = true ↔ (Spot.of clause).Allows := by
  simp only [Spot.Allows, Spot.of, and_true]
  cases clause <;> decide

namespace Term

variable {e : Expr} {t : Term}

theorem legal_of_not_isAggregate (simple : e.isAggregate = false) (run : ofExpr registry scopes clause e = .ok t)
    (here : Spot) : t.Legal here := by
  cases e with
  | path path =>
    obtain ⟨owner, _, run⟩ := Except.bind_eq_ok.mp run
    cases run
    exact True.intro
  | literal v =>
    cases run
    exact True.intro
  | subquery plan =>
    obtain ⟨s, _, run⟩ := Except.bind_eq_ok.mp run
    cases run
    exact True.intro
  | aggregate f argument distinct => cases simple

/-- An aggregate is resolved in a clause that allows it, from an argument that is none. -/
theorem legal_ofExpr (run : ofExpr registry scopes clause e = .ok t) : t.Legal (.of clause) := by
  cases e with
  | path | literal | subquery => exact legal_of_not_isAggregate rfl run _
  | aggregate f argument distinct =>
    unfold ofExpr at run
    split at run
    · cases run
    case isFalse allowed =>
      split at run
      · cases run
      case isFalse simple =>
        obtain ⟨r, resolved, run⟩ := Except.bind_eq_ok.mp run
        cases run
        rw [Bool.not_eq_true', Bool.not_eq_false] at allowed
        exact ⟨Clause.allowsAggregates_iff.mp allowed,
          legal_of_not_isAggregate (Bool.eq_false_iff.mpr simple) resolved _⟩

end Term

theorem legal_conditions {ps : List Predicate} {cs : List Condition}
    (run : conditionsOfPredicates registry scopes clause ps = .ok cs) :
    ∀ t ∈ cs.flatMap Condition.terms, t.Legal (.of clause) := by
  intro t member
  obtain ⟨c, listed, inside⟩ := List.mem_flatMap.mp member
  obtain ⟨q, _, resolved⟩ := Except.mem_of_mapM ((conditionsOfPredicates_eq _).symm.trans run) listed
  obtain ⟨e, _, found⟩ := (Condition.stems_ofPredicate q c resolved).terms t inside
  exact Term.legal_ofExpr found

theorem legal_joins {js : List Join} {cs : List JoinClause} (run : clausesOfJoins registry scopes js = .ok cs) :
    ∀ t ∈ (cs.filterMap (·.condition)).flatMap Condition.terms, t.Legal (.of .join) := by
  intro t member
  obtain ⟨c, joined, inside⟩ := List.mem_flatMap.mp member
  obtain ⟨q, _, resolved⟩ := conditions_ofJoins run joined
  obtain ⟨e, _, found⟩ := (Condition.stems_ofPredicate q c resolved).terms t inside
  exact Term.legal_ofExpr found

namespace Select

theorem Resolves.legalClauses {scope : Scope} {s : Select} (r : Resolves registry outer role p scope s) :
    s.LegalClauses where
  outputs t member := by
    obtain ⟨o, inside, own⟩ := List.mem_filterMap.mp member
    obtain ⟨item, _, resolved⟩ := Except.mem_of_mapM ((outputsOfProjections_eq _).symm.trans r.outputs) inside
    cases item with
    | entity a =>
      cases resolved
      cases own
    | expr e =>
      obtain ⟨u, found, run⟩ := Except.bind_eq_ok.mp resolved
      cases run
      cases own
      exact Term.legal_ofExpr found
  joins := legal_joins r.joins
  filters := legal_conditions r.filters
  groups t member := by
    obtain ⟨e, _, found⟩ := Except.mem_of_mapM ((termsOfExprs_eq _).symm.trans r.groups) member
    exact Term.legal_ofExpr found
  havings := legal_conditions r.havings
  orderings t member := by
    obtain ⟨k, inside, rfl⟩ := List.mem_map.mp member
    have orderings := r.orderings
    split at orderings
    · rw [orderings] at inside
      exact absurd inside List.not_mem_nil
    · obtain ⟨item, _, resolved⟩ := Except.mem_of_mapM ((keysOfItems_eq _).symm.trans orderings) inside
      cases item
      obtain ⟨u, found, run⟩ := Except.bind_eq_ok.mp resolved
      cases run
      exact Term.legal_ofExpr found

/-- The clause in force is that of the innermost query, so what holds of the clauses of one query holds at every depth. -/
theorem legal_ofPlan (p : Plan) : ∀ {outer : List Scope} {role : Role} {s : Select},
    Select.ofPlan registry outer role p = .ok s → s.Legal := by
  induction p using Plan.inner_induction with
  | step p ih =>
    intro outer role s run
    obtain ⟨scope, r⟩ := Select.ofPlan_eq_ok.mp run
    refine .intro r.legalClauses fun u member => ?_
    obtain ⟨q, inside, _, _, ran⟩ := r.inner member
    exact ih q inside ran

end Select

/-- A count of sources keeps the joins and the filters of its plan. -/
theorem Plan.legal_counting {s : Select} (run : p.counting registry = .ok s) : s.Legal := by
  refine .intro ?_ fun u member => ?_
  · obtain ⟨scope, _, run⟩ := Except.bind_eq_ok.mp run
    obtain ⟨_, _, run⟩ := Except.bind_eq_ok.mp run
    obtain ⟨_, _, run⟩ := Except.bind_eq_ok.mp run
    obtain ⟨joins, atJoins, run⟩ := Except.bind_eq_ok.mp run
    obtain ⟨filters, atFilters, run⟩ := Except.bind_eq_ok.mp run
    cases run
    have none : ∀ {clause : Clause}, ∀ t ∈ ([] : List Term), t.Legal (.of clause) :=
      fun _ member => absurd member List.not_mem_nil
    exact ⟨none, legal_joins atJoins, legal_conditions atFilters, none, none, none⟩
  · obtain ⟨q, _, _, _, _, ran⟩ := Plan.counting_inner run member
    exact Select.legal_ofPlan q ran

theorem Plan.legal_resolveCount {q : CountQuery} (run : p.resolveCount registry = .ok q) : q.Legal := by
  unfold resolveCount at run
  split at run
  · obtain ⟨s, ran, run⟩ := Except.bind_eq_ok.mp run
    cases run
    exact Select.legal_ofPlan p ran
  · obtain ⟨s, ran, run⟩ := Except.bind_eq_ok.mp run
    cases run
    exact Plan.legal_counting ran

/-- Every aggregate that the text of a compiled query or count names is called in the select list, in the conditions on
groups or in the order of the innermost query around it, and in no argument of another one. -/
theorem compile_aggregateCalls (registry : Registry) (d : Dialect) (p : Plan) :
    (∀ query, compile registry d p = .ok query →
      ∀ call ∈ d.aggregateCalls query.statement.sql, call.spot.Allows) ∧
    ∀ count, compileCount registry d p = .ok count → ∀ call ∈ d.aggregateCalls count.sql, call.spot.Allows := by
  constructor
  · intro query run
    obtain ⟨s, resolved, run⟩ := Except.bind_eq_ok.mp run
    cases run
    exact (crosses_select d s false (Select.legal_ofPlan p resolved)).statement (tidy_select d s false)
  · intro count run
    obtain ⟨q, resolved, run⟩ := Except.bind_eq_ok.mp run
    cases run
    exact (crosses_count d q (Plan.legal_resolveCount resolved)).statement (tidy_count d q)

/-- The titles of more than one task each, looked for by a query with aggregates of its own. -/
def titlesAmongRepeated : Plan := { repeatedTitles with
  filters := [.inPlan (.path (taskTitle "task")) { repeatedTitles with
    projections := [.expr ((Expr.path (taskTitle "other")).max)]
    sources := [taskAs "other"]
    groups := [.path (taskTitle "other")]
    havings := [.compare (taskAs "other").count .gt (.literal (.int 1))]
    orderings := [] } false] }

theorem compile_aggregateCalls_titlesAmongRepeated :
    (∃ query, compile tracker .postgres titlesAmongRepeated = .ok query ∧
      Dialect.postgres.aggregateCalls query.statement.sql = [⟨.count, .of .select⟩, ⟨.max, .of .select⟩,
        ⟨.count, .of .having⟩, ⟨.count, .of .having⟩, ⟨.count, .of .orderBy⟩] ∧
      ∀ call ∈ Dialect.postgres.aggregateCalls query.statement.sql, call.spot.Allows) ∧
    ∃ count, compileCount tracker .postgres titlesAmongRepeated = .ok count ∧
      Dialect.postgres.aggregateCalls count.sql = [⟨.count, .of .select⟩, ⟨.count, .of .select⟩,
        ⟨.max, .of .select⟩, ⟨.count, .of .having⟩, ⟨.count, .of .having⟩] ∧
      ∀ call ∈ Dialect.postgres.aggregateCalls count.sql, call.spot.Allows := by
  have compiled : compile tracker .postgres titlesAmongRepeated = .ok _ := rfl
  have counted : compileCount tracker .postgres titlesAmongRepeated = .ok _ := rfl
  obtain ⟨queries, counts⟩ := compile_aggregateCalls tracker .postgres titlesAmongRepeated
  refine ⟨⟨_, compiled, ?_, queries _ compiled⟩, _, counted, ?_, counts _ counted⟩
  · exact (Dialect.aggregateCalls_ofTokens _ (tidy_select _ _ _)).trans rfl
  · exact (Dialect.aggregateCalls_ofTokens _ (tidy_count _ _)).trans rfl

end EntityMapper
