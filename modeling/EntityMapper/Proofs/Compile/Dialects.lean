import EntityMapper.Proofs.Compile.FromClauses
import EntityMapper.Proofs.Query.Paths
import EntityMapper.Proofs.Sql.Rendered
import EntityMapper.Proofs.Sql.Spelling

namespace EntityMapper

/-- Two dialects write the page of every query of a plan alike. -/
def Plan.SamePages (d e : Dialect) (p : Plan) : Prop :=
  ∀ q, p.Contains q → pagingTokens d q.limit q.offset = pagingTokens e q.limit q.offset

theorem pagingTokens_none (d : Dialect) : pagingTokens d none none = [] := by
  cases d <;> rfl

/-- Numbered placeholders are all that is special about one dialect. -/
theorem Plan.samePages_postgres (p : Plan) : p.SamePages .ansi .postgres := by
  intro q _
  cases q.limit with
  | none => cases q.offset <;> rfl
  | some n => cases q.offset <;> rfl

/-- An offset behind a limit is written alike. -/
theorem Plan.samePages_sqlite {p : Plan} (limited : ∀ q, p.Contains q → q.offset.isSome → q.limit.isSome) :
    p.SamePages .sqlite .ansi := by
  intro q contained
  have limited := limited q contained
  cases limit : q.limit with
  | none =>
    cases offset : q.offset with
    | none => rfl
    | some n =>
      rw [limit, offset] at limited
      cases limited rfl
  | some n => cases q.offset <;> rfl

/-- What a count of sources asks for is resolved from the joins and the filters of its plan. -/
theorem Plan.counting_inner {registry : Registry} {p : Plan} {s : Select} (run : p.counting registry = .ok s)
    {u : Select} (member : u ∈ s.inner) :
    ∃ q ∈ p.inner, ∃ outer role, role ≠ .counted ∧ Select.ofPlan registry outer role q = .ok u := by
  obtain ⟨scope, _, run⟩ := Except.bind_eq_ok.mp run
  obtain ⟨_, _, run⟩ := Except.bind_eq_ok.mp run
  obtain ⟨_, _, run⟩ := Except.bind_eq_ok.mp run
  obtain ⟨joins, atJoins, run⟩ := Except.bind_eq_ok.mp run
  obtain ⟨filters, atFilters, run⟩ := Except.bind_eq_ok.mp run
  cases run
  have conditions : ∀ c ∈ joins.filterMap (·.condition) ++ filters,
      ∃ q ∈ p.conditions, ∃ clause, Condition.ofPredicate registry [scope] clause q = .ok c := by
    refine List.forall_mem_append.mpr ⟨fun c joined => ?_, fun c filter => ?_⟩
    · obtain ⟨q, listed, found⟩ := conditions_ofJoins atJoins joined
      exact ⟨q, List.mem_append_left _ listed, .join, found⟩
    · obtain ⟨q, inside, found⟩ := Except.mem_of_mapM ((conditionsOfPredicates_eq _).symm.trans atFilters) filter
      exact ⟨q, List.mem_append_right _ (List.mem_append_left _ inside), .filter, found⟩
  simp only [Select.inner, Select.terms, Select.conditions, List.append_nil, List.filterMap_nil, List.nil_append,
    List.map_nil] at member
  rcases List.mem_append.mp member with own | sought
  · obtain ⟨t, inside, found⟩ := List.mem_filterMap.mp own
    obtain ⟨c, listed, within⟩ := List.mem_flatMap.mp inside
    obtain ⟨q, asked, clause, resolved⟩ := conditions c listed
    obtain ⟨e, mentioned, ran⟩ := (Condition.stems_ofPredicate q c resolved).terms t within
    obtain ⟨r, deeper, role, kept, ran⟩ := inner_ofExpr (mem_exprs_of_conditions asked mentioned) ran found
    exact ⟨r, deeper, [scope], role, kept, ran⟩
  · obtain ⟨c, listed, within⟩ := List.mem_flatMap.mp sought
    obtain ⟨q, asked, clause, resolved⟩ := conditions c listed
    obtain ⟨r, deeper, role, kept, ran⟩ := inner_ofPredicate asked resolved within
    exact ⟨r, deeper, [scope], role, kept, ran⟩

section Tokens

variable {registry : Registry} {d e : Dialect} (nulls : d.ordersNulls = e.ordersNulls)

include nulls

/-- Dialects that order nulls alike write a resolved query to the same tokens where they write the pages in it alike. -/
theorem Select.tokens_eq_of_samePages (p : Plan) : p.SamePages d e → ∀ {outer : List Scope} {role : Role} {s : Select},
    Select.ofPlan registry outer role p = .ok s → ∀ aliased, s.tokens d aliased = s.tokens e aliased := by
  induction p using Plan.inner_induction with
  | step p ih =>
    intro same outer role s run aliased
    obtain ⟨scope, r⟩ := Select.ofPlan_eq_ok.mp run
    obtain ⟨own, others⟩ := Plan.forall_contains.mp same
    refine s.tokens_congr nulls ?_ (fun u member => ?_) aliased
    · rw [r.limit, r.offset]
      split
      · rw [pagingTokens_none, pagingTokens_none]
      · exact own
    · obtain ⟨q, inside, role', _, ran⟩ := r.inner member
      exact ih q inside (others q inside) ran false

/-- Both ways to count are written to the same tokens, too. -/
theorem CountQuery.tokens_eq_of_samePages {p : Plan} (same : p.SamePages d e) {query : CountQuery}
    (run : p.resolveCount registry = .ok query) : query.tokens d = query.tokens e := by
  unfold Plan.resolveCount at run
  split at run
  · obtain ⟨s, ran, run⟩ := Except.bind_eq_ok.mp run
    cases run
    rw [tokens, tokens, Select.tokens_eq_of_samePages nulls p same ran]
  · obtain ⟨s, ran, run⟩ := Except.bind_eq_ok.mp run
    cases run
    have inner : ∀ u ∈ s.inner, u.tokens d false = u.tokens e false := fun u member => by
      obtain ⟨q, inside, outer, role, _, ran⟩ := Plan.counting_inner ran member
      exact Select.tokens_eq_of_samePages nulls q ((Plan.forall_contains.mp same).2 q inside) ran false
    have conditions := (Select.conditions_congr inner).2
    rw [tokens, tokens, Select.fromTokens_congr conditions, Select.whereTokens_congr conditions]

end Tokens

section Agreement

variable {registry : Registry} {p : Plan}

theorem compile_eq (d : Dialect) :
    compile registry d p = (p.resolve registry).map fun s =>
      ⟨.ofTokens d (s.tokens d false), .ofProjections p.projections s.fetches⟩ := by
  unfold compile
  cases p.resolve registry with
  | ok s => rfl
  | error e => rfl

theorem compileCount_eq (d : Dialect) :
    compileCount registry d p = (p.resolveCount registry).map fun query => .ofTokens d (query.tokens d) := by
  unfold compileCount
  cases p.resolveCount registry with
  | ok query => rfl
  | error e => rfl

end Agreement

/-- The dialects agree on what they refuse and on the layout of rows. Two of them differ in their placeholders only, and
two not at all where no query of the plan skips rows without a limit. -/
theorem dialects_agree (registry : Registry) (p : Plan) :
    (∀ d e, (compile registry d p).map (·.layout) = (compile registry e p).map (·.layout) ∧
      (compileCount registry d p).map (fun _ => ()) = (compileCount registry e p).map fun _ => ()) ∧
    (∀ query other, compile registry .ansi p = .ok query → compile registry .postgres p = .ok other →
      query.statement.Respells .ansi .postgres other.statement ∧
        other.statement.Respells .postgres .ansi query.statement) ∧
    (∀ count other, compileCount registry .ansi p = .ok count → compileCount registry .postgres p = .ok other →
      count.Respells .ansi .postgres other ∧ other.Respells .postgres .ansi count) ∧
    ((∀ q, p.Contains q → q.offset.isSome → q.limit.isSome) →
      compile registry .sqlite p = compile registry .ansi p ∧
        compileCount registry .sqlite p = compileCount registry .ansi p) := by
  have numbered : Dialect.ansi.ordersNulls = Dialect.postgres.ordersNulls := rfl
  have paged : Dialect.sqlite.ordersNulls = Dialect.ansi.ordersNulls := rfl
  have quoted : Dialect.ansi.quoteMark = Dialect.postgres.quoteMark := rfl
  have spelled (ts : List Token) : Statement.ofTokens .sqlite ts = Statement.ofTokens .ansi ts :=
    Statement.ofTokens_congr rfl rfl ts
  refine ⟨fun d e => ?_, fun query other run otherRun => ?_, fun count other run otherRun => ?_, fun limited => ?_⟩
  · rw [compile_eq, compile_eq, compileCount_eq, compileCount_eq]
    constructor
    · cases p.resolve registry <;> rfl
    · cases p.resolveCount registry <;> rfl
  · obtain ⟨s, resolved, run⟩ := Except.bind_eq_ok.mp run
    obtain ⟨s', resolved', otherRun⟩ := Except.bind_eq_ok.mp otherRun
    cases run
    cases otherRun
    cases resolved.symm.trans resolved'
    have same := Select.tokens_eq_of_samePages numbered p p.samePages_postgres resolved false
    have clean := (clean_select .ansi s false).weaken false
    dsimp only
    rw [← same]
    exact ⟨Statement.respells_ofTokens quoted clean, Statement.respells_ofTokens quoted.symm clean⟩
  · obtain ⟨query, resolved, run⟩ := Except.bind_eq_ok.mp run
    obtain ⟨query', resolved', otherRun⟩ := Except.bind_eq_ok.mp otherRun
    cases run
    cases otherRun
    cases resolved.symm.trans resolved'
    rw [← CountQuery.tokens_eq_of_samePages numbered p.samePages_postgres resolved]
    have clean := clean_count .ansi query
    exact ⟨Statement.respells_ofTokens quoted clean, Statement.respells_ofTokens quoted.symm clean⟩
  · have pages := Plan.samePages_sqlite limited
    rw [compile_eq, compile_eq, compileCount_eq, compileCount_eq]
    constructor
    · cases resolved : p.resolve registry with
      | error e => rfl
      | ok s =>
        simp only [Except.map]
        rw [Select.tokens_eq_of_samePages paged p pages resolved false, spelled]
    · cases resolved : p.resolveCount registry with
      | error e => rfl
      | ok query =>
        simp only [Except.map]
        rw [CountQuery.tokens_eq_of_samePages paged pages resolved, spelled]

/-- A page of sibling tasks. -/
def tasksPage : Plan := { siblingTasks with offset := some 20, limit := some 10 }

theorem dialects_agree_tasksPage :
    (∀ q, tasksPage.Contains q → q.offset.isSome → q.limit.isSome) ∧
      compile tracker .sqlite tasksPage = compile tracker .ansi tasksPage ∧
      ∃ query other, compile tracker .ansi tasksPage = .ok query ∧ compile tracker .postgres tasksPage = .ok other ∧
        query.statement.Respells .ansi .postgres other.statement := by
  have limited : ∀ q, tasksPage.Contains q → q.offset.isSome → q.limit.isSome :=
    Plan.forall_contains.mpr ⟨fun _ => rfl, List.forall_mem_singleton.mpr
      (Plan.forall_contains.mpr ⟨fun skips => (nomatch skips), fun _ none => absurd none List.not_mem_nil⟩)⟩
  have run : compile tracker .ansi tasksPage = .ok _ := rfl
  have otherRun : compile tracker .postgres tasksPage = .ok _ := rfl
  obtain ⟨_, queries, _, same⟩ := dialects_agree tracker tasksPage
  exact ⟨limited, (same limited).1, _, _, run, otherRun, (queries _ _ run otherRun).1⟩

end EntityMapper
