import EntityMapper.Proofs.Action
import EntityMapper.Proofs.Compile.Scopes
import EntityMapper.Proofs.Query.Nesting
import EntityMapper.Proofs.Sql.Tables

namespace EntityMapper

variable {registry : Registry} {scopes outer : List Scope} {clause : Clause} {role : Role}

section Lists

theorem termsOfExprs_eq (es : List Expr) :
    termsOfExprs registry scopes clause es = es.mapM (Term.ofExpr registry scopes clause) := by
  induction es with
  | nil => rfl
  | cons e rest ih =>
    rw [List.mapM_cons, ← ih]
    rfl

theorem conditionsOfPredicates_eq (ps : List Predicate) :
    conditionsOfPredicates registry scopes clause ps = ps.mapM (Condition.ofPredicate registry scopes clause) := by
  induction ps with
  | nil => rfl
  | cons p rest ih =>
    rw [List.mapM_cons, ← ih]
    rfl

theorem outputsOfProjections_eq (ps : List Projection) :
    outputsOfProjections registry scopes ps = ps.mapM (Output.ofProjection registry scopes) := by
  induction ps with
  | nil => rfl
  | cons p rest ih =>
    rw [List.mapM_cons, ← ih]
    rfl

theorem clausesOfJoins_eq (js : List Join) :
    clausesOfJoins registry scopes js = js.mapM (JoinClause.ofJoin registry scopes) := by
  induction js with
  | nil => rfl
  | cons j rest ih =>
    rw [List.mapM_cons, ← ih]
    rfl

theorem keysOfItems_eq (items : List SortItem) :
    keysOfItems registry scopes items = items.mapM (SortKey.ofItem registry scopes) := by
  induction items with
  | nil => rfl
  | cons item rest ih =>
    rw [List.mapM_cons, ← ih]
    rfl

end Lists

/-- What a query is resolved to, clause by clause, in a scope of its own inside the scopes around it. Counted rows have
neither order, nor pages, nor fetched columns. -/
structure Select.Resolves (registry : Registry) (outer : List Scope) (role : Role) (p : Plan) (scope : Scope)
    (s : Select) : Prop where
  opened : Scope.ofPlan registry outer p = .ok scope
  projected : checkProjections scope role p.projections = .ok ()
  grouped : p.checkGrouping = .ok ()
  outputs : outputsOfProjections registry (scope :: outer) p.projections = .ok s.outputs
  fetches : ∃ fetched, p.fetches role = .ok fetched ∧ s.fetches = if role = .counted then [] else fetched
  joins : clausesOfJoins registry (scope :: outer) p.joins = .ok s.joins
  filters : conditionsOfPredicates registry (scope :: outer) .filter p.filters = .ok s.filters
  groups : termsOfExprs registry (scope :: outer) .groupBy p.groups = .ok s.groups
  havings : conditionsOfPredicates registry (scope :: outer) .having p.havings = .ok s.havings
  orderings : if role = .counted then s.orderings = []
    else keysOfItems registry (scope :: outer) p.orderings = .ok s.orderings
  distinct : s.distinct = p.distinct
  sources : s.sources = p.sources
  generated : s.generated = scope.generated
  limit : s.limit = if role = .counted then none else p.limit
  offset : s.offset = if role = .counted then none else p.offset

theorem Select.ofPlan_eq_ok {p : Plan} {s : Select} :
    Select.ofPlan registry outer role p = .ok s ↔ ∃ scope, Resolves registry outer role p scope s := by
  cases p with
  | mk projections sources joins filters groups havings orderings offset limit distinct =>
    constructor
    · intro run
      obtain ⟨scope, opened, run⟩ := Except.bind_eq_ok.mp run
      obtain ⟨_, projected, run⟩ := Except.bind_eq_ok.mp run
      obtain ⟨_, grouped, run⟩ := Except.bind_eq_ok.mp run
      obtain ⟨outputs, atOutputs, run⟩ := Except.bind_eq_ok.mp run
      obtain ⟨fetched, atFetches, run⟩ := Except.bind_eq_ok.mp run
      obtain ⟨clauses, atJoins, run⟩ := Except.bind_eq_ok.mp run
      obtain ⟨conditions, atFilters, run⟩ := Except.bind_eq_ok.mp run
      obtain ⟨terms, atGroups, run⟩ := Except.bind_eq_ok.mp run
      obtain ⟨restrictions, atHavings, run⟩ := Except.bind_eq_ok.mp run
      refine ⟨scope, ?_⟩
      by_cases counted : role = .counted
      · rw [if_pos counted] at run
        cases run
        exact ⟨opened, projected, grouped, atOutputs, ⟨fetched, atFetches, by rw [if_pos counted]⟩, atJoins, atFilters,
          atGroups, atHavings, by rw [if_pos counted], rfl, rfl, rfl, by rw [if_pos counted], by rw [if_pos counted]⟩
      · rw [if_neg counted] at run
        obtain ⟨keys, atOrderings, run⟩ := Except.bind_eq_ok.mp run
        cases run
        exact ⟨opened, projected, grouped, atOutputs, ⟨fetched, atFetches, by rw [if_neg counted]⟩, atJoins, atFilters,
          atGroups, atHavings, by rwa [if_neg counted], rfl, rfl, rfl, by rw [if_neg counted], by rw [if_neg counted]⟩
    · rintro ⟨scope, r⟩
      obtain ⟨fetched, atFetches, fetches⟩ := r.fetches
      have orderings := r.orderings
      have limit := r.limit
      have offset := r.offset
      have distinct := r.distinct
      have sources := r.sources
      have generated := r.generated
      unfold Select.ofPlan
      simp only [r.opened, r.projected, r.grouped, r.outputs, atFetches, r.joins, r.filters, r.groups, r.havings,
        Except.ok_bind]
      cases s
      by_cases counted : role = .counted
      · simp_all
      · simp_all [Except.ok_bind]

namespace Term

theorem ofExpr_aggregate {f : AggregateFunction} {argument : Expr} {distinct : Bool} {t : Term}
    (run : ofExpr registry scopes clause (.aggregate f argument distinct) = .ok t) :
    ∃ r, ofExpr registry scopes clause argument = .ok r ∧ t = .aggregate f r distinct := by
  unfold ofExpr at run
  split at run
  · cases run
  split at run
  · cases run
  obtain ⟨r, resolved, run⟩ := Except.bind_eq_ok.mp run
  cases run
  exact ⟨r, resolved, rfl⟩

/-- The column that is rendered for an expression is the one its path is located at. -/
theorem column_ofExpr : ∀ {e : Expr} {t : Term}, ofExpr registry scopes clause e = .ok t →
    t.column? = e.path?.bind fun path => (locate scopes path).toOption.map (·, path)
  | .path p, _, run => by
    obtain ⟨owner, located, run⟩ := Except.bind_eq_ok.mp run
    cases run
    simp [column?, Expr.path?, located, Except.toOption]
  | .literal v, _, run => by
    cases run
    rfl
  | .aggregate f argument distinct, _, run => by
    obtain ⟨r, resolved, rfl⟩ := ofExpr_aggregate run
    exact column_ofExpr (e := argument) (t := r) resolved
  | .subquery plan, _, run => by
    obtain ⟨s, _, run⟩ := Except.bind_eq_ok.mp run
    cases run
    rfl

theorem located_ofExpr : ∀ {e : Expr} {t : Term} {path : Path}, ofExpr registry scopes clause e = .ok t →
    e.path? = some path → ∃ owner, locate scopes path = .ok owner
  | .path p, _, _, run, found => by
    cases found
    obtain ⟨owner, located, _⟩ := Except.bind_eq_ok.mp run
    exact ⟨owner, located⟩
  | .literal _, _, _, _, found => nomatch found
  | .aggregate f argument distinct, _, _, run, found => by
    obtain ⟨r, resolved, rfl⟩ := ofExpr_aggregate run
    exact located_ofExpr (e := argument) resolved found
  | .subquery _, _, _, _, found => nomatch found

theorem select_ofExpr : ∀ {e : Expr} {t : Term} {u : Select}, ofExpr registry scopes clause e = .ok t →
    t.select? = some u → ∃ q, e.plan? = some q ∧ Select.ofPlan registry scopes .values q = .ok u
  | .path p, _, _, run, found => by
    obtain ⟨owner, _, run⟩ := Except.bind_eq_ok.mp run
    cases run
    cases found
  | .literal v, _, _, run, found => by
    cases run
    cases found
  | .aggregate f argument distinct, _, _, run, found => by
    obtain ⟨r, resolved, rfl⟩ := ofExpr_aggregate run
    exact select_ofExpr (e := argument) (t := r) resolved found
  | .subquery plan, _, _, run, found => by
    obtain ⟨s, resolved, run⟩ := Except.bind_eq_ok.mp run
    cases run
    cases found
    exact ⟨plan, rfl, resolved⟩

end Term

/-- The terms of a condition are resolved from expressions, and all expressions are resolved but those that are looked
for in empty lists. The queries of a condition are resolved from plans. -/
structure Stems (registry : Registry) (scopes : List Scope) (clause : Clause) (exprs sought : List Expr)
    (plans : List Plan) (terms : List Term) (selects : List Select) : Prop where
  terms : ∀ t ∈ terms, ∃ e ∈ exprs, Term.ofExpr registry scopes clause e = .ok t
  exprs : ∀ e ∈ exprs, e ∈ sought ∨ ∃ t, Term.ofExpr registry scopes clause e = .ok t
  selects : ∀ u ∈ selects, ∃ q ∈ plans, ∃ role, role ≠ .counted ∧ Select.ofPlan registry scopes role q = .ok u

namespace Stems

theorem ofTerms {es : List Expr} {ts : List Term}
    (resolved : List.Forall₂ (fun e t => Term.ofExpr registry scopes clause e = .ok t) es ts) :
    Stems registry scopes clause es [] [] ts [] := by
  refine ⟨?_, ?_, fun _ none => absurd none List.not_mem_nil⟩
  · induction resolved with
    | nil => exact fun _ none => absurd none List.not_mem_nil
    | cons own _ ih =>
      refine List.forall_mem_cons.mpr ⟨⟨_, List.mem_cons_self, own⟩, fun t member => ?_⟩
      obtain ⟨e, inside, found⟩ := ih t member
      exact ⟨e, List.mem_cons_of_mem _ inside, found⟩
  · induction resolved with
    | nil => exact fun _ none => absurd none List.not_mem_nil
    | cons own _ ih => exact List.forall_mem_cons.mpr ⟨.inr ⟨_, own⟩, ih⟩

theorem ofSelect {plan : Plan} {select : Select} {role : Role} (kept : role ≠ .counted)
    (resolved : Select.ofPlan registry scopes role plan = .ok select) :
    Stems registry scopes clause [] [] [plan] [] [select] :=
  ⟨fun _ none => absurd none List.not_mem_nil, fun _ none => absurd none List.not_mem_nil,
    List.forall_mem_singleton.mpr ⟨plan, List.mem_cons_self, role, kept, resolved⟩⟩

theorem append {es es' sought sought' : List Expr} {ps ps' : List Plan} {ts ts' : List Term} {us us' : List Select}
    (first : Stems registry scopes clause es sought ps ts us)
    (second : Stems registry scopes clause es' sought' ps' ts' us') :
    Stems registry scopes clause (es ++ es') (sought ++ sought') (ps ++ ps') (ts ++ ts') (us ++ us') := by
  refine ⟨?_, ?_, ?_⟩
  · refine List.forall_mem_append.mpr ⟨fun t member => ?_, fun t member => ?_⟩
    · obtain ⟨e, inside, found⟩ := first.terms t member
      exact ⟨e, List.mem_append_left _ inside, found⟩
    · obtain ⟨e, inside, found⟩ := second.terms t member
      exact ⟨e, List.mem_append_right _ inside, found⟩
  · refine List.forall_mem_append.mpr ⟨fun e member => ?_, fun e member => ?_⟩
    · exact (first.exprs e member).imp_left (List.mem_append_left _)
    · exact (second.exprs e member).imp_left (List.mem_append_right _)
  · refine List.forall_mem_append.mpr ⟨fun u member => ?_, fun u member => ?_⟩
    · obtain ⟨q, inside, found⟩ := first.selects u member
      exact ⟨q, List.mem_append_left _ inside, found⟩
    · obtain ⟨q, inside, found⟩ := second.selects u member
      exact ⟨q, List.mem_append_right _ inside, found⟩

end Stems

mutual

theorem Condition.stems_ofPredicate : ∀ (p : Predicate) (c : Condition),
    Condition.ofPredicate registry scopes clause p = .ok c →
      Stems registry scopes clause p.exprs p.sought p.plans c.terms c.selects
  | .compare left op right, _, run => by
    obtain ⟨l, onLeft, run⟩ := Except.bind_eq_ok.mp run
    obtain ⟨r, onRight, run⟩ := Except.bind_eq_ok.mp run
    cases run
    exact .ofTerms (.cons onLeft (.cons onRight .nil))
  | .between expr low high, _, run => by
    obtain ⟨e, atExpr, run⟩ := Except.bind_eq_ok.mp run
    obtain ⟨l, atLow, run⟩ := Except.bind_eq_ok.mp run
    obtain ⟨h, atHigh, run⟩ := Except.bind_eq_ok.mp run
    cases run
    exact .ofTerms (.cons atExpr (.cons atLow (.cons atHigh .nil)))
  | .inValues expr values negated, _, run => by
    unfold Condition.ofPredicate at run
    split at run
    case isTrue empty =>
      cases run
      have sought : (Predicate.inValues expr values negated).sought = [expr] := if_pos empty
      have exprs : (Predicate.inValues expr values negated).exprs = [expr] := by
        rw [Predicate.exprs, List.isEmpty_iff.mp empty]
      rw [sought, exprs]
      exact ⟨fun _ none => absurd none List.not_mem_nil, fun _ member => .inl member,
        fun _ none => absurd none List.not_mem_nil⟩
    case isFalse filled =>
      obtain ⟨e, atExpr, run⟩ := Except.bind_eq_ok.mp run
      obtain ⟨vs, atValues, run⟩ := Except.bind_eq_ok.mp run
      cases run
      rw [termsOfExprs_eq] at atValues
      have sought : (Predicate.inValues expr values negated).sought = [] := if_neg filled
      rw [sought]
      exact .ofTerms (.cons atExpr (Except.mapM_eq_ok.mp atValues))
  | .inPlan expr plan negated, _, run => by
    obtain ⟨e, atExpr, run⟩ := Except.bind_eq_ok.mp run
    obtain ⟨select, atPlan, run⟩ := Except.bind_eq_ok.mp run
    cases run
    exact (Stems.ofTerms (.cons atExpr .nil)).append (.ofSelect (by decide) atPlan)
  | .isNull expr negated, _, run => by
    obtain ⟨e, atExpr, run⟩ := Except.bind_eq_ok.mp run
    cases run
    exact .ofTerms (.cons atExpr .nil)
  | .exists plan negated, _, run => by
    obtain ⟨select, atPlan, run⟩ := Except.bind_eq_ok.mp run
    cases run
    exact .ofSelect (by decide) atPlan
  | .and items, _, run => by
    obtain ⟨cs, resolved, run⟩ := Except.bind_eq_ok.mp run
    cases run
    exact stems_ofPredicates items cs resolved
  | .or items, _, run => by
    obtain ⟨cs, resolved, run⟩ := Except.bind_eq_ok.mp run
    cases run
    exact stems_ofPredicates items cs resolved
  | .not inner, _, run => by
    obtain ⟨c, resolved, run⟩ := Except.bind_eq_ok.mp run
    cases run
    exact Condition.stems_ofPredicate inner c resolved
termination_by structural p => p

theorem Condition.stems_ofPredicates : ∀ (ps : List Predicate) (cs : List Condition),
    conditionsOfPredicates registry scopes clause ps = .ok cs →
      Stems registry scopes clause (Predicate.exprsOfAll ps) (Predicate.soughtOfAll ps) (Predicate.plansOfAll ps)
        (Condition.termsOfAll cs) (Condition.selectsOfAll cs)
  | [], _, run => by
    cases run
    exact .ofTerms .nil
  | p :: rest, _, run => by
    obtain ⟨c, resolved, run⟩ := Except.bind_eq_ok.mp run
    obtain ⟨cs, others, run⟩ := Except.bind_eq_ok.mp run
    cases run
    exact (Condition.stems_ofPredicate p c resolved).append (Condition.stems_ofPredicates rest cs others)
termination_by structural ps => ps

end

/-- A resolved join keeps its target and what it follows, and its condition is resolved. -/
theorem JoinClause.ofJoin_ok {j : Join} {c : JoinClause} (run : JoinClause.ofJoin registry scopes j = .ok c) :
    c.target = j.target ∧ c.link = j.link ∧
      conditionOfOption registry scopes j.condition = .ok c.condition := by
  cases j
  obtain ⟨k, resolved, run⟩ := Except.bind_eq_ok.mp run
  cases run
  exact ⟨rfl, rfl, resolved⟩

theorem conditionOfOption_ok {p? : Option Predicate} {c? : Option Condition}
    (run : conditionOfOption registry scopes p? = .ok c?) :
    Option.Rel (fun p c => Condition.ofPredicate registry scopes .join p = .ok c) p? c? := by
  cases p? with
  | none =>
    cases run
    exact .none
  | some p =>
    obtain ⟨c, resolved, run⟩ := Except.bind_eq_ok.mp run
    cases run
    exact .some resolved

/-- The condition of a resolved join is resolved from that of the join. -/
theorem conditions_ofJoins {js : List Join} {cs : List JoinClause} (run : clausesOfJoins registry scopes js = .ok cs)
    {c : Condition} (member : c ∈ cs.filterMap (·.condition)) :
    ∃ q ∈ js.filterMap (·.condition), Condition.ofPredicate registry scopes .join q = .ok c := by
  obtain ⟨clause, inside, own⟩ := List.mem_filterMap.mp member
  obtain ⟨j, listed, resolved⟩ := Except.mem_of_mapM ((clausesOfJoins_eq _).symm.trans run) inside
  have related := conditionOfOption_ok (JoinClause.ofJoin_ok resolved).2.2
  rw [own] at related
  cases condition : j.condition with
  | none =>
    rw [condition] at related
    cases related
  | some q =>
    rw [condition] at related
    cases related with
    | some found => exact ⟨q, List.mem_filterMap.mpr ⟨j, listed, condition⟩, found⟩

section Inner

variable {p : Plan} {u : Select}

/-- A subquery that is a term of a query is resolved from a subquery of its plan. -/
theorem inner_ofExpr {e : Expr} {t : Term} (listed : e ∈ p.exprs) (resolved : Term.ofExpr registry scopes clause e = .ok t)
    (found : t.select? = some u) :
    ∃ q ∈ p.inner, ∃ role, role ≠ .counted ∧ Select.ofPlan registry scopes role q = .ok u := by
  obtain ⟨q, atExpr, ran⟩ := Term.select_ofExpr resolved found
  exact ⟨q, List.mem_append_left _ (List.mem_filterMap.mpr ⟨e, listed, atExpr⟩), .values, by decide, ran⟩

theorem inner_ofPredicate {q : Predicate} {c : Condition} (listed : q ∈ p.conditions)
    (resolved : Condition.ofPredicate registry scopes clause q = .ok c) (within : u ∈ c.selects) :
    ∃ r ∈ p.inner, ∃ role, role ≠ .counted ∧ Select.ofPlan registry scopes role r = .ok u := by
  obtain ⟨plan, mentioned, ran⟩ := (Condition.stems_ofPredicate q c resolved).selects u within
  exact ⟨plan, List.mem_append_right _ (List.mem_flatMap.mpr ⟨q, listed, mentioned⟩), ran⟩

end Inner

namespace Select.Resolves

variable {p : Plan} {scope : Scope} {s : Select}

theorem tables (r : Resolves registry outer role p scope s) :
    s.tables = p.declared ++ scope.generated.map .ofGenerated := by
  have joins : s.joins.map (fun c => FromTable.ofJoin c.target c.link) =
      p.joins.map fun j => FromTable.ofJoin j.target j.link := by
    have clauses := Except.mapM_eq_ok.mp ((clausesOfJoins_eq _).symm.trans r.joins)
    generalize p.joins = js, s.joins = cs at clauses
    induction clauses with
    | nil => rfl
    | cons first _ ih =>
      obtain ⟨target, link, _⟩ := JoinClause.ofJoin_ok first
      rw [List.map_cons, List.map_cons, ih, target, link]
  rw [Select.tables, r.sources, joins, r.generated]
  rfl

theorem conditions (r : Resolves registry outer role p scope s) {c : Condition} (member : c ∈ s.conditions) :
    ∃ q ∈ p.conditions, ∃ clause, Condition.ofPredicate registry (scope :: outer) clause q = .ok c := by
  rcases List.mem_append.mp member with joined | free
  · obtain ⟨q, listed, found⟩ := conditions_ofJoins r.joins joined
    exact ⟨q, List.mem_append_left _ listed, .join, found⟩
  · rcases List.mem_append.mp free with filter | having
    · obtain ⟨q, inside, found⟩ := Except.mem_of_mapM ((conditionsOfPredicates_eq _).symm.trans r.filters) filter
      exact ⟨q, List.mem_append_right _ (List.mem_append_left _ inside), .filter, found⟩
    · obtain ⟨q, inside, found⟩ := Except.mem_of_mapM ((conditionsOfPredicates_eq _).symm.trans r.havings) having
      exact ⟨q, List.mem_append_right _ (List.mem_append_right _ inside), .having, found⟩

theorem terms (r : Resolves registry outer role p scope s) {t : Term} (member : t ∈ s.terms) :
    ∃ e ∈ p.exprs, ∃ clause, Term.ofExpr registry (scope :: outer) clause e = .ok t := by
  simp only [Select.terms, List.mem_append] at member
  simp only [Plan.exprs, Plan.freeExprs, List.mem_append]
  rcases member with ((projected | conditional) | grouped) | ordered
  · obtain ⟨o, inside, own⟩ := List.mem_filterMap.mp projected
    obtain ⟨item, listed, resolved⟩ := Except.mem_of_mapM ((outputsOfProjections_eq _).symm.trans r.outputs) inside
    cases item with
    | entity a =>
      cases resolved
      cases own
    | expr e =>
      obtain ⟨u, found, run⟩ := Except.bind_eq_ok.mp resolved
      cases run
      cases own
      exact ⟨e, .inl (.inl (.inl (.inl (List.mem_filterMap.mpr ⟨_, listed, rfl⟩)))), .select, found⟩
  · obtain ⟨c, inside, within⟩ := List.mem_flatMap.mp conditional
    obtain ⟨q, listed, clause, resolved⟩ := r.conditions inside
    obtain ⟨e, mentioned, found⟩ := (Condition.stems_ofPredicate q c resolved).terms t within
    have place := Plan.mem_exprs_of_conditions listed mentioned
    simp only [Plan.exprs, Plan.freeExprs, List.mem_append] at place
    exact ⟨e, place, clause, found⟩
  · obtain ⟨e, listed, found⟩ := Except.mem_of_mapM ((termsOfExprs_eq _).symm.trans r.groups) grouped
    exact ⟨e, .inl (.inl (.inr listed)), .groupBy, found⟩
  · obtain ⟨k, inside, rfl⟩ := List.mem_map.mp ordered
    have orderings := r.orderings
    split at orderings
    · rw [orderings] at inside
      exact absurd inside List.not_mem_nil
    · obtain ⟨item, listed, resolved⟩ := Except.mem_of_mapM ((keysOfItems_eq _).symm.trans orderings) inside
      cases item
      obtain ⟨u, found, run⟩ := Except.bind_eq_ok.mp resolved
      cases run
      exact ⟨_, .inl (.inr (List.mem_map.mpr ⟨_, listed, rfl⟩)), .orderBy, found⟩

/-- A rendered path stands behind the alias that it is located at. -/
theorem columns (r : Resolves registry outer role p scope s) {owner : String} {path : Path}
    (member : (owner, path) ∈ s.columns) :
    (∃ inCondition, (path, inCondition) ∈ p.pathUses) ∧ locate (scope :: outer) path = .ok owner := by
  obtain ⟨t, inside, own⟩ := List.mem_filterMap.mp member
  obtain ⟨e, listed, clause, resolved⟩ := r.terms inside
  rw [Term.column_ofExpr resolved] at own
  obtain ⟨found, atPath, own⟩ := Option.bind_eq_some_iff.mp own
  obtain ⟨name, located, same⟩ := Option.map_eq_some_iff.mp own
  cases same
  refine ⟨?_, ?_⟩
  · rcases List.mem_append.mp listed with free | joined
    · exact ⟨false, Plan.mem_pathUses.mpr ⟨e, free, atPath⟩⟩
    · exact ⟨true, Plan.mem_pathUses.mpr ⟨e, joined, atPath⟩⟩
  · cases ran : locate (scope :: outer) path with
    | ok name =>
      rw [ran] at located
      cases located
      rfl
    | error e =>
      rw [ran] at located
      cases located

/-- A subquery of a resolved query is resolved from a subquery of its plan, inside its scope. -/
theorem inner (r : Resolves registry outer role p scope s) {u : Select} (member : u ∈ s.inner) :
    ∃ q ∈ p.inner, ∃ role, role ≠ .counted ∧ Select.ofPlan registry (scope :: outer) role q = .ok u := by
  rcases List.mem_append.mp member with own | sought
  · obtain ⟨t, inside, found⟩ := List.mem_filterMap.mp own
    obtain ⟨e, listed, clause, resolved⟩ := r.terms inside
    exact inner_ofExpr listed resolved found
  · obtain ⟨c, inside, within⟩ := List.mem_flatMap.mp sought
    obtain ⟨q, listed, clause, resolved⟩ := r.conditions inside
    exact inner_ofPredicate listed resolved within

/-- Of the expressions outside of join conditions, all are resolved but those that are looked for in empty lists and the
order of counted rows. -/
theorem freeExprs (r : Resolves registry outer role p scope s) {e : Expr} (listed : e ∈ p.freeExprs) :
    e ∈ (p.filters ++ p.havings).flatMap Predicate.sought ∨ (role = .counted ∧ e ∈ p.orderings.map (·.expr)) ∨
      ∃ clause t, Term.ofExpr registry (scope :: outer) clause e = .ok t := by
  have conditional {clause : Clause} {qs : List Predicate} {cs : List Condition}
      (ran : conditionsOfPredicates registry (scope :: outer) clause qs = .ok cs)
      (among : ∀ q ∈ qs, q ∈ p.filters ++ p.havings) {q : Predicate} (inside : q ∈ qs) (mentioned : e ∈ q.exprs) :
      e ∈ (p.filters ++ p.havings).flatMap Predicate.sought ∨
        ∃ clause t, Term.ofExpr registry (scope :: outer) clause e = .ok t := by
    obtain ⟨c, _, found⟩ := Except.ok_of_mapM ((conditionsOfPredicates_eq _).symm.trans ran) inside
    refine ((Condition.stems_ofPredicate q c found).exprs e mentioned).imp (fun sought => ?_) fun found => ⟨clause, found⟩
    exact List.mem_flatMap.mpr ⟨q, among q inside, sought⟩
  simp only [Plan.freeExprs, List.mem_append] at listed
  rcases listed with ((projected | restricted) | grouped) | ordered
  · obtain ⟨item, inside, own⟩ := List.mem_filterMap.mp projected
    obtain ⟨o, _, found⟩ := Except.ok_of_mapM ((outputsOfProjections_eq _).symm.trans r.outputs) inside
    cases item with
    | entity a => cases own
    | expr e' =>
      cases own
      obtain ⟨t, found, _⟩ := Except.bind_eq_ok.mp found
      exact .inr (.inr ⟨_, t, found⟩)
  · obtain ⟨q, inside, mentioned⟩ := List.mem_flatMap.mp restricted
    rcases List.mem_append.mp inside with filter | having
    · exact (conditional r.filters (fun q => List.mem_append_left _) filter mentioned).imp_right .inr
    · exact (conditional r.havings (fun q => List.mem_append_right _) having mentioned).imp_right .inr
  · obtain ⟨t, _, found⟩ := Except.ok_of_mapM ((termsOfExprs_eq _).symm.trans r.groups) grouped
    exact .inr (.inr ⟨_, t, found⟩)
  · by_cases counted : role = .counted
    · exact .inr (.inl ⟨counted, ordered⟩)
    obtain ⟨item, inside, rfl⟩ := List.mem_map.mp ordered
    have orderings := r.orderings
    rw [if_neg counted] at orderings
    obtain ⟨k, _, found⟩ := Except.ok_of_mapM ((keysOfItems_eq _).symm.trans orderings) inside
    cases item
    obtain ⟨t, found, _⟩ := Except.bind_eq_ok.mp found
    exact .inr (.inr ⟨_, t, found⟩)

/-- Of the expressions of join conditions, all are resolved but those that are looked for in empty lists. -/
theorem joinExprs (r : Resolves registry outer role p scope s) {e : Expr}
    (listed : e ∈ p.joinConditions.flatMap Predicate.exprs) :
    e ∈ p.joinConditions.flatMap Predicate.sought ∨
      ∃ clause t, Term.ofExpr registry (scope :: outer) clause e = .ok t := by
  obtain ⟨q, inside, mentioned⟩ := List.mem_flatMap.mp listed
  obtain ⟨j, joined, condition⟩ := List.mem_filterMap.mp inside
  obtain ⟨clause, _, resolved⟩ := Except.ok_of_mapM ((clausesOfJoins_eq _).symm.trans r.joins) joined
  have related := conditionOfOption_ok (JoinClause.ofJoin_ok resolved).2.2
  rw [condition] at related
  generalize clause.condition = c? at related
  cases related with
  | some found =>
    refine ((Condition.stems_ofPredicate q _ found).exprs e mentioned).imp (fun sought => ?_) fun found => ⟨_, found⟩
    exact List.mem_flatMap.mpr ⟨q, inside, sought⟩

/-- Of the paths for which joins may be generated, all are located but those that are looked for in empty lists. -/
theorem located (r : Resolves registry outer role p scope s) (kept : role ≠ .counted) {path : Path}
    (member : (path, false) ∈ p.pathUses) :
    path ∈ p.sought ∨ ∃ owner, locate (scope :: outer) path = .ok owner := by
  obtain ⟨e, listed, atPath⟩ := Plan.mem_pathUses.mp member
  rw [if_neg Bool.false_ne_true] at listed
  rcases r.freeExprs listed with sought | ⟨counted, _⟩ | ⟨_, t, found⟩
  · exact .inl (List.mem_filterMap.mpr ⟨e, sought, atPath⟩)
  · exact absurd counted kept
  · exact .inr (Term.located_ofExpr found atPath)

end Select.Resolves

/-- A query of a statement and those around it, each with the plan and the scope that it is resolved in. -/
structure Level where
  plan : Plan
  scope : Scope
  select : Select

/-- Each of the levels is resolved inside the scopes of those around it, from a plan that the whole plan contains, and
not for a count. -/
def Level.Resolved (registry : Registry) (p : Plan) (levels : List Level) : Prop :=
  ∀ level around, level :: around <:+ levels → p.Contains level.plan ∧ ∃ role, role ≠ .counted ∧
    Select.Resolves registry (around.map (·.scope)) role level.plan level.scope level.select

theorem Level.Resolved.of_mem {p : Plan} {levels : List Level} (resolved : Level.Resolved registry p levels)
    {level : Level} (member : level ∈ levels) : p.Contains level.plan ∧ ∃ outer role, role ≠ .counted ∧
      Select.Resolves registry outer role level.plan level.scope level.select := by
  obtain ⟨inner, around, split⟩ := List.append_of_mem member
  obtain ⟨contained, role, kept, resolves⟩ := resolved level around (split ▸ List.suffix_append inner _)
  exact ⟨contained, _, role, kept, resolves⟩

/-- Every query of a statement is resolved inside the scopes of the queries around it from a subquery of the plan of the
next one, the outermost from the whole plan. -/
theorem Select.Encloses.innerLevels {p : Plan} {s : Select} (kept : role ≠ .counted)
    (run : Select.ofPlan registry [] role p = .ok s) {chain : List Select} (encloses : s.Encloses chain) :
    ∃ levels : List Level, levels.map (·.select) = chain ∧ Level.Resolved registry p levels ∧
      (∃ inner scope, levels = inner ++ [⟨p, scope, s⟩]) ∧
        levels.IsChain fun level next => level.plan ∈ next.plan.inner := by
  induction encloses with
  | whole =>
    obtain ⟨scope, resolves⟩ := Select.ofPlan_eq_ok.mp run
    refine ⟨[⟨p, scope, s⟩], rfl, fun level around suffix => ?_, ⟨[], scope, rfl⟩, .singleton _⟩
    rcases List.suffix_cons_iff.mp suffix with same | shorter
    · cases same
      exact ⟨.self, role, kept, resolves⟩
    · cases List.suffix_nil.mp shorter
  | @inner t u outer _ member ih =>
    obtain ⟨levels, chain, resolved, last, linked⟩ := ih
    cases levels with
    | nil => cases chain
    | cons level around =>
      cases chain
      obtain ⟨contained, _, _, resolves⟩ := resolved level around List.suffix_rfl
      obtain ⟨q, inside, role', valued, ran⟩ := resolves.inner member
      obtain ⟨scope, deeper⟩ := Select.ofPlan_eq_ok.mp ran
      refine ⟨⟨q, scope, u⟩ :: level :: around, rfl, fun other rest suffix => ?_, ?_, .cons_cons inside linked⟩
      · rcases List.suffix_cons_iff.mp suffix with same | shorter
        · cases same
          exact ⟨.inner contained inside, role', valued, deeper⟩
        · exact resolved other rest shorter
      · obtain ⟨inner, outermost, split⟩ := last
        exact ⟨⟨q, scope, u⟩ :: inner, outermost, by rw [split, List.cons_append]⟩

/-- Every query of a statement is resolved inside the scopes of the queries around it, the outermost from the whole
plan. -/
theorem Select.Encloses.levels {p : Plan} {s : Select} (kept : role ≠ .counted)
    (run : Select.ofPlan registry [] role p = .ok s) {chain : List Select} (encloses : s.Encloses chain) :
    ∃ levels : List Level, levels.map (·.select) = chain ∧ Level.Resolved registry p levels ∧
      ∃ inner scope, levels = inner ++ [⟨p, scope, s⟩] := by
  obtain ⟨levels, selects, resolved, last, _⟩ := encloses.innerLevels kept run
  exact ⟨levels, selects, resolved, last⟩

end EntityMapper
