import EntityMapper.Proofs.Compile.Layouts
import EntityMapper.Proofs.Sql.Shapes

namespace EntityMapper

mutual

/-- Every subquery in the expression that stands for a value or for a list of them selects one column, and no conjunction
and no disjunction is empty, as far as they are written out. -/
def Expr.shaped : Expr → Bool
  | .path _ | .literal _ => true
  | .aggregate _ argument _ => argument.shaped
  | .subquery plan => Layout.visibleWidth plan.projections == 1 && plan.shaped
termination_by structural e => e

/-- What is looked for in an empty list is not written out. -/
def Predicate.shaped : Predicate → Bool
  | .compare left _ right => left.shaped && right.shaped
  | .between expr low high => expr.shaped && low.shaped && high.shaped
  | .inValues expr values _ => values.isEmpty || expr.shaped && exprsShaped values
  | .inPlan expr plan _ => expr.shaped && Layout.visibleWidth plan.projections == 1 && plan.shaped
  | .isNull expr _ => expr.shaped
  | .exists plan _ => plan.shaped
  | .and items | .or items => !items.isEmpty && predicatesShaped items
  | .not inner => inner.shaped
termination_by structural p => p

def Projection.shaped : Projection → Bool
  | .expr e => e.shaped
  | .entity _ => true
termination_by structural p => p

def Join.shaped : Join → Bool
  | ⟨_, _, _, condition, _⟩ => conditionShaped condition
termination_by structural j => j

def SortItem.shaped : SortItem → Bool
  | ⟨expr, _, _⟩ => expr.shaped
termination_by structural o => o

def Plan.shaped : Plan → Bool
  | ⟨projections, _, joins, filters, groups, havings, orderings, _, _, _⟩ =>
    projectionsShaped projections && planJoinsShaped joins && predicatesShaped filters && exprsShaped groups &&
      predicatesShaped havings && itemsShaped orderings
termination_by structural p => p

def conditionShaped : Option Predicate → Bool
  | none => true
  | some p => p.shaped
termination_by structural p => p

def exprsShaped : List Expr → Bool
  | [] => true
  | e :: rest => e.shaped && exprsShaped rest
termination_by structural es => es

def predicatesShaped : List Predicate → Bool
  | [] => true
  | p :: rest => p.shaped && predicatesShaped rest
termination_by structural ps => ps

def projectionsShaped : List Projection → Bool
  | [] => true
  | p :: rest => p.shaped && projectionsShaped rest
termination_by structural ps => ps

def planJoinsShaped : List Join → Bool
  | [] => true
  | j :: rest => j.shaped && planJoinsShaped rest
termination_by structural js => js

def itemsShaped : List SortItem → Bool
  | [] => true
  | o :: rest => o.shaped && itemsShaped rest
termination_by structural os => os

end

variable {registry : Registry} {scopes outer : List Scope} {clause : Clause} {role : Role} {p : Plan} {s : Select}

/-- A subquery for values fetches nothing. -/
theorem Plan.fetches_values {fetched : List FetchJoin} (run : p.fetches .values = .ok fetched) : fetched = [] := by
  unfold fetches at run
  dsimp only at run
  by_cases none : (p.joins.filter (·.fetch)).isEmpty
  · rw [if_pos none] at run
    exact (Except.ok.inj run).symm
  · rw [if_neg none] at run
    cases run

/-- A subquery for values selects one column or more. -/
theorem Select.width_ofPlan (run : Select.ofPlan registry outer .values p = .ok s) :
    decide (s.width ≤ 1) = (Layout.visibleWidth p.projections == 1) := by
  obtain ⟨scope, r⟩ := Select.ofPlan_eq_ok.mp run
  obtain ⟨fetched, atFetches, fetches⟩ := r.fetches
  rw [if_neg (by decide), Plan.fetches_values atFetches] at fetches
  have selected := Select.length_selectList .ansi s
  rw [selectList, fetches, List.flatMap_nil, List.append_nil] at selected
  have some := List.length_pos_of_ne_nil (r.outputColumns_ne_nil .ansi (by decide))
  have width := length_outputColumns .ansi (r.widths .ansi)
  rw [Bool.eq_iff_iff, decide_eq_true_eq, beq_iff_eq]
  omega

theorem Select.shaped_eq (s : Select) : s.shaped = (outputsShaped s.outputs && joinsShaped s.joins &&
    conditionsShaped s.filters && termsShaped s.groups && conditionsShaped s.havings && keysShaped s.orderings) := by
  cases s
  rfl

theorem isEmpty_of_mapM {α β : Type} {f : α → Except Error β} {xs : List α} {ys : List β} (run : xs.mapM f = .ok ys) :
    ys.isEmpty = xs.isEmpty := by
  cases Except.mapM_eq_ok.mp run with
  | nil => rfl
  | cons => rfl

section Resolved

mutual

theorem Term.shaped_ofExpr : ∀ (e : Expr) (scopes : List Scope) (clause : Clause) (t : Term),
    Term.ofExpr registry scopes clause e = .ok t → t.shaped = e.shaped
  | .path path, scopes, _, t, run => by
    obtain ⟨owner, _, run⟩ := Except.bind_eq_ok.mp run
    cases run
    rfl
  | .literal v, _, _, t, run => by
    cases run
    rfl
  | .aggregate f argument distinct, scopes, clause, t, run => by
    obtain ⟨r, resolved, rfl⟩ := Term.ofExpr_aggregate run
    exact Term.shaped_ofExpr argument scopes clause r resolved
  | .subquery plan, scopes, _, t, run => by
    obtain ⟨s, resolved, run⟩ := Except.bind_eq_ok.mp run
    cases run
    have width := Select.width_ofPlan resolved
    have inner := Select.shaped_ofPlan plan scopes .values s resolved (by decide)
    rw [Term.shaped, Expr.shaped, width, inner]
termination_by structural e => e

theorem Condition.shaped_ofPredicate : ∀ (q : Predicate) (scopes : List Scope) (clause : Clause) (c : Condition),
    Condition.ofPredicate registry scopes clause q = .ok c → c.shaped = q.shaped
  | .compare left op right, scopes, clause, c, run => by
    obtain ⟨l, onLeft, run⟩ := Except.bind_eq_ok.mp run
    obtain ⟨r, onRight, run⟩ := Except.bind_eq_ok.mp run
    cases run
    rw [Condition.shaped, Predicate.shaped, Term.shaped_ofExpr left scopes clause l onLeft,
      Term.shaped_ofExpr right scopes clause r onRight]
  | .between expr low high, scopes, clause, c, run => by
    obtain ⟨e, atExpr, run⟩ := Except.bind_eq_ok.mp run
    obtain ⟨l, atLow, run⟩ := Except.bind_eq_ok.mp run
    obtain ⟨h, atHigh, run⟩ := Except.bind_eq_ok.mp run
    cases run
    rw [Condition.shaped, Predicate.shaped, Term.shaped_ofExpr expr scopes clause e atExpr,
      Term.shaped_ofExpr low scopes clause l atLow, Term.shaped_ofExpr high scopes clause h atHigh]
  | .inValues expr values negated, scopes, clause, c, run => by
    unfold Condition.ofPredicate at run
    split at run
    case isTrue empty =>
      cases run
      rw [Condition.shaped, Predicate.shaped, empty, Bool.true_or]
    case isFalse filled =>
      obtain ⟨e, atExpr, run⟩ := Except.bind_eq_ok.mp run
      obtain ⟨vs, atValues, run⟩ := Except.bind_eq_ok.mp run
      cases run
      have items := Term.shaped_ofExprs values scopes clause vs atValues
      have some := isEmpty_of_mapM ((termsOfExprs_eq values).symm.trans atValues)
      rw [Condition.shaped, Predicate.shaped, Term.shaped_ofExpr expr scopes clause e atExpr, items, some,
        eq_false_of_ne_true filled, Bool.false_or, Bool.not_false, Bool.and_true]
  | .inPlan expr plan negated, scopes, clause, c, run => by
    obtain ⟨e, atExpr, run⟩ := Except.bind_eq_ok.mp run
    obtain ⟨s, resolved, run⟩ := Except.bind_eq_ok.mp run
    cases run
    have width := Select.width_ofPlan resolved
    have inner := Select.shaped_ofPlan plan scopes .values s resolved (by decide)
    rw [Condition.shaped, Predicate.shaped, Term.shaped_ofExpr expr scopes clause e atExpr, width, inner]
  | .isNull expr negated, scopes, clause, c, run => by
    obtain ⟨e, atExpr, run⟩ := Except.bind_eq_ok.mp run
    cases run
    exact Term.shaped_ofExpr expr scopes clause e atExpr
  | .exists plan negated, scopes, _, c, run => by
    obtain ⟨s, resolved, run⟩ := Except.bind_eq_ok.mp run
    cases run
    exact Select.shaped_ofPlan plan scopes .existence s resolved (by decide)
  | .and items, scopes, clause, c, run => by
    obtain ⟨cs, resolved, run⟩ := Except.bind_eq_ok.mp run
    cases run
    have each := Condition.shaped_ofPredicates items scopes clause cs resolved
    have some := isEmpty_of_mapM ((conditionsOfPredicates_eq items).symm.trans resolved)
    rw [Condition.shaped, Predicate.shaped, each, some]
  | .or items, scopes, clause, c, run => by
    obtain ⟨cs, resolved, run⟩ := Except.bind_eq_ok.mp run
    cases run
    have each := Condition.shaped_ofPredicates items scopes clause cs resolved
    have some := isEmpty_of_mapM ((conditionsOfPredicates_eq items).symm.trans resolved)
    rw [Condition.shaped, Predicate.shaped, each, some]
  | .not inner, scopes, clause, c, run => by
    obtain ⟨c, resolved, run⟩ := Except.bind_eq_ok.mp run
    cases run
    exact Condition.shaped_ofPredicate inner scopes clause c resolved
termination_by structural q => q

theorem Output.shaped_ofProjection : ∀ (q : Projection) (scopes : List Scope) (o : Output),
    Output.ofProjection registry scopes q = .ok o → o.shaped = q.shaped
  | .expr e, scopes, o, run => by
    obtain ⟨t, resolved, run⟩ := Except.bind_eq_ok.mp run
    cases run
    exact Term.shaped_ofExpr e scopes .select t resolved
  | .entity a, _, o, run => by
    cases run
    rfl
termination_by structural q => q

theorem JoinClause.shaped_ofJoin : ∀ (j : Join) (scopes : List Scope) (c : JoinClause),
    JoinClause.ofJoin registry scopes j = .ok c → c.shaped = j.shaped
  | ⟨kind, target, association, condition, fetch⟩, scopes, c, run => by
    obtain ⟨o, resolved, run⟩ := Except.bind_eq_ok.mp run
    cases run
    exact Condition.shaped_ofOption condition scopes o resolved
termination_by structural j => j

theorem SortKey.shaped_ofItem : ∀ (item : SortItem) (scopes : List Scope) (k : SortKey),
    SortKey.ofItem registry scopes item = .ok k → k.shaped = item.shaped
  | ⟨expr, direction, nulls⟩, scopes, k, run => by
    obtain ⟨t, resolved, run⟩ := Except.bind_eq_ok.mp run
    cases run
    exact Term.shaped_ofExpr expr scopes .orderBy t resolved
termination_by structural item => item

/-- The order of counted rows is left out. -/
theorem Select.shaped_ofPlan : ∀ (p : Plan) (outer : List Scope) (role : Role) (s : Select),
    Select.ofPlan registry outer role p = .ok s → role ≠ .counted → s.shaped = p.shaped
  | ⟨projections, sources, joins, filters, groups, havings, orderings, offset, limit, distinct⟩, outer, role, s, run,
      ordered => by
    obtain ⟨scope, r⟩ := Select.ofPlan_eq_ok.mp run
    have keys := r.orderings
    rw [if_neg ordered] at keys
    rw [Select.shaped_eq, Plan.shaped, Output.shaped_ofProjections projections _ _ r.outputs,
      JoinClause.shaped_ofJoins joins _ _ r.joins, Condition.shaped_ofPredicates filters _ _ _ r.filters,
      Term.shaped_ofExprs groups _ _ _ r.groups, Condition.shaped_ofPredicates havings _ _ _ r.havings,
      SortKey.shaped_ofItems orderings _ _ keys]
termination_by structural p => p

theorem Condition.shaped_ofOption : ∀ (q : Option Predicate) (scopes : List Scope) (c : Option Condition),
    conditionOfOption registry scopes q = .ok c → optionShaped c = conditionShaped q
  | none, _, c, run => by
    cases run
    rfl
  | some q, scopes, c, run => by
    obtain ⟨o, resolved, run⟩ := Except.bind_eq_ok.mp run
    cases run
    exact Condition.shaped_ofPredicate q scopes .join o resolved
termination_by structural q => q

theorem Term.shaped_ofExprs : ∀ (es : List Expr) (scopes : List Scope) (clause : Clause) (ts : List Term),
    termsOfExprs registry scopes clause es = .ok ts → termsShaped ts = exprsShaped es
  | [], _, _, _, run => by
    cases run
    rfl
  | e :: rest, scopes, clause, _, run => by
    obtain ⟨t, resolved, run⟩ := Except.bind_eq_ok.mp run
    obtain ⟨ts, others, run⟩ := Except.bind_eq_ok.mp run
    cases run
    rw [termsShaped, exprsShaped, Term.shaped_ofExpr e scopes clause t resolved,
      Term.shaped_ofExprs rest scopes clause ts others]
termination_by structural es => es

theorem Condition.shaped_ofPredicates : ∀ (qs : List Predicate) (scopes : List Scope) (clause : Clause)
    (cs : List Condition), conditionsOfPredicates registry scopes clause qs = .ok cs →
      conditionsShaped cs = predicatesShaped qs
  | [], _, _, _, run => by
    cases run
    rfl
  | q :: rest, scopes, clause, _, run => by
    obtain ⟨c, resolved, run⟩ := Except.bind_eq_ok.mp run
    obtain ⟨cs, others, run⟩ := Except.bind_eq_ok.mp run
    cases run
    rw [conditionsShaped, predicatesShaped, Condition.shaped_ofPredicate q scopes clause c resolved,
      Condition.shaped_ofPredicates rest scopes clause cs others]
termination_by structural qs => qs

theorem Output.shaped_ofProjections : ∀ (qs : List Projection) (scopes : List Scope) (os : List Output),
    outputsOfProjections registry scopes qs = .ok os → outputsShaped os = projectionsShaped qs
  | [], _, _, run => by
    cases run
    rfl
  | q :: rest, scopes, _, run => by
    obtain ⟨o, resolved, run⟩ := Except.bind_eq_ok.mp run
    obtain ⟨os, others, run⟩ := Except.bind_eq_ok.mp run
    cases run
    rw [outputsShaped, projectionsShaped, Output.shaped_ofProjection q scopes o resolved,
      Output.shaped_ofProjections rest scopes os others]
termination_by structural qs => qs

theorem JoinClause.shaped_ofJoins : ∀ (js : List Join) (scopes : List Scope) (cs : List JoinClause),
    clausesOfJoins registry scopes js = .ok cs → joinsShaped cs = planJoinsShaped js
  | [], _, _, run => by
    cases run
    rfl
  | j :: rest, scopes, _, run => by
    obtain ⟨c, resolved, run⟩ := Except.bind_eq_ok.mp run
    obtain ⟨cs, others, run⟩ := Except.bind_eq_ok.mp run
    cases run
    rw [joinsShaped, planJoinsShaped, JoinClause.shaped_ofJoin j scopes c resolved,
      JoinClause.shaped_ofJoins rest scopes cs others]
termination_by structural js => js

theorem SortKey.shaped_ofItems : ∀ (items : List SortItem) (scopes : List Scope) (ks : List SortKey),
    keysOfItems registry scopes items = .ok ks → keysShaped ks = itemsShaped items
  | [], _, _, run => by
    cases run
    rfl
  | item :: rest, scopes, _, run => by
    obtain ⟨k, resolved, run⟩ := Except.bind_eq_ok.mp run
    obtain ⟨ks, others, run⟩ := Except.bind_eq_ok.mp run
    cases run
    rw [keysShaped, itemsShaped, SortKey.shaped_ofItem item scopes k resolved,
      SortKey.shaped_ofItems rest scopes ks others]
termination_by structural items => items

end

end Resolved

/-- The text of a query that is compiled is well shaped exactly if the plan is. -/
theorem compile_wellShaped_iff {d : Dialect} {query : CompiledQuery} (compiled : compile registry d p = .ok query) :
    d.wellShaped query.statement.sql = true ↔ p.shaped = true := by
  obtain ⟨s, resolved, compiled⟩ := Except.bind_eq_ok.mp compiled
  cases compiled
  rw [wellShaped_select, Select.shaped_ofPlan p [] .rows s resolved (by decide)]

namespace People

def personEntity : Entity :=
  ⟨"person", "people", [⟨"id", "id", .integer⟩, ⟨"age", "age", .integer⟩], ⟨0, by decide⟩, []⟩

def people : Registry := ⟨[personEntity]⟩

def age (name : String) : Expr := .path ⟨name, "person", [], "age", "age", .integer⟩

/-- The people whom a condition holds of. -/
def peopleWhere (condition : Predicate) : Plan :=
  ⟨[.entity ⟨"p", personEntity⟩], [⟨"p", personEntity⟩], [], [condition], [], [], [], none, none, false⟩

/-- The ages of people, as many times as asked for. -/
def ages (columns : ℕ) : Plan :=
  ⟨List.replicate columns (.expr (age "q")), [⟨"q", personEntity⟩], [], [], [], [], [], none, none, false⟩

end People

open People

theorem compile_wellShaped_iff_ages :
    ∃ query, compile people .postgres (peopleWhere (.inPlan (age "p") (ages 1) false)) = .ok query ∧
      Dialect.postgres.wellShaped query.statement.sql = true := by
  have compiled : compile people .postgres (peopleWhere (.inPlan (age "p") (ages 1) false)) = .ok _ := rfl
  exact ⟨_, compiled, (compile_wellShaped_iff compiled).mpr rfl⟩

/-- A condition made of nothing is written as empty parentheses, and two columns stand where one value is compared. -/
theorem compile_accepts_shapeless :
    (∃ query, compile people .postgres (peopleWhere (.and [])) = .ok query ∧
      Dialect.postgres.wellShaped query.statement.sql = false) ∧
    ∃ query, compile people .postgres (peopleWhere (.compare (age "p") .eq (.subquery (ages 2)))) = .ok query ∧
      Dialect.postgres.wellShaped query.statement.sql = false := by
  refine ⟨⟨_, rfl, ?_⟩, _, rfl, ?_⟩
  · exact (wellShaped_select _ _).trans rfl
  · exact (wellShaped_select _ _).trans rfl

end EntityMapper
