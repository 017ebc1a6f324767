import EntityMapper.Proofs.Compile.Resolution

namespace EntityMapper

/-- The run is not refused. -/
def Accepted {α : Type} (run : Except Error α) : Prop := ∃ a, run = .ok a

section Runs

variable {α β : Type} {run : Except Error α} {next : α → Except Error β}

theorem accepted_ok (a : α) : Accepted (.ok a : Except Error α) := ⟨a, rfl⟩

theorem not_accepted_refusePlan (fault : PlanFault) : ¬Accepted (refusePlan fault : Except Error α) := nofun

theorem accepted_bind : Accepted (run >>= next) ↔ ∃ a, run = .ok a ∧ Accepted (next a) := by
  simp only [Accepted, Except.bind_eq_ok]
  exact ⟨fun ⟨b, a, first, second⟩ => ⟨a, first, b, second⟩, fun ⟨a, first, b, second⟩ => ⟨b, a, first, second⟩⟩

/-- What follows a run is accepted or refused whatever the run returns. -/
theorem accepted_seq {P : Prop} (same : ∀ a, Accepted (next a) ↔ P) : Accepted (run >>= next) ↔ Accepted run ∧ P := by
  simp only [accepted_bind, same, exists_and_right]
  rfl

theorem accepted_map {f : α → β} : Accepted (run >>= fun a => .ok (f a)) ↔ Accepted run :=
  (accepted_seq fun a => iff_true_intro (accepted_ok (f a))).trans (and_iff_left trivial)

theorem accepted_mapM {f : α → Except Error β} {xs : List α} : Accepted (xs.mapM f) ↔ ∀ x ∈ xs, Accepted (f x) := by
  induction xs with
  | nil => exact iff_of_true ⟨[], rfl⟩ fun _ none => absurd none List.not_mem_nil
  | cons x xs ih =>
    rw [List.mapM_cons, List.forall_mem_cons, ← ih]
    exact accepted_seq fun _ => accepted_map

end Runs

variable {registry : Registry} {scopes outer : List Scope} {clause : Clause} {role : Role}

section Parts

variable {expr low high left right : Expr} {plan : Plan} {negated distinct : Bool}

theorem Term.accepted_aggregate {f : AggregateFunction} :
    Accepted (ofExpr registry scopes clause (.aggregate f expr distinct)) ↔
      clause.allowsAggregates = true ∧ expr.isAggregate = false ∧ Accepted (ofExpr registry scopes clause expr) := by
  cases allowed : clause.allowsAggregates with
  | false =>
    rw [ofExpr, allowed]
    exact iff_of_false (not_accepted_refusePlan _) fun both => Bool.false_ne_true both.1
  | true =>
    cases nested : expr.isAggregate with
    | true =>
      rw [ofExpr, allowed, nested]
      exact iff_of_false (not_accepted_refusePlan _) fun both => Bool.false_ne_true both.2.1.symm
    | false =>
      rw [ofExpr, allowed, nested]
      exact accepted_map.trans (by simp)

theorem Term.accepted_subquery : Accepted (ofExpr registry scopes clause (.subquery plan)) ↔
    Accepted (Select.ofPlan registry scopes .values plan) := accepted_map

theorem accepted_termsOfExprs {es : List Expr} : Accepted (termsOfExprs registry scopes clause es) ↔
    ∀ e ∈ es, Accepted (Term.ofExpr registry scopes clause e) := by rw [termsOfExprs_eq, accepted_mapM]

theorem accepted_conditionsOfPredicates {ps : List Predicate} :
    Accepted (conditionsOfPredicates registry scopes clause ps) ↔
      ∀ p ∈ ps, Accepted (Condition.ofPredicate registry scopes clause p) := by
  rw [conditionsOfPredicates_eq, accepted_mapM]

namespace Condition

theorem accepted_compare {op : CompareOp} : Accepted (ofPredicate registry scopes clause (.compare left op right)) ↔
    Accepted (Term.ofExpr registry scopes clause left) ∧ Accepted (Term.ofExpr registry scopes clause right) :=
  accepted_seq fun _ => accepted_map

theorem accepted_between : Accepted (ofPredicate registry scopes clause (.between expr low high)) ↔
    Accepted (Term.ofExpr registry scopes clause expr) ∧ Accepted (Term.ofExpr registry scopes clause low) ∧
      Accepted (Term.ofExpr registry scopes clause high) :=
  accepted_seq fun _ => accepted_seq fun _ => accepted_map

/-- What is looked for in an empty list is not looked at. -/
theorem accepted_inValues {values : List Expr} :
    Accepted (ofPredicate registry scopes clause (.inValues expr values negated)) ↔ (values ≠ [] →
      Accepted (Term.ofExpr registry scopes clause expr) ∧
        ∀ v ∈ values, Accepted (Term.ofExpr registry scopes clause v)) := by
  unfold ofPredicate
  cases values with
  | nil => exact iff_of_true (accepted_ok _) fun filled => absurd rfl filled
  | cons v rest =>
    rw [← accepted_termsOfExprs, forall_prop_of_true (List.cons_ne_nil v rest)]
    exact accepted_seq fun _ => accepted_map

theorem accepted_inPlan : Accepted (ofPredicate registry scopes clause (.inPlan expr plan negated)) ↔
    Accepted (Term.ofExpr registry scopes clause expr) ∧ Accepted (Select.ofPlan registry scopes .values plan) :=
  accepted_seq fun _ => accepted_map

theorem accepted_isNull : Accepted (ofPredicate registry scopes clause (.isNull expr negated)) ↔
    Accepted (Term.ofExpr registry scopes clause expr) := accepted_map

theorem accepted_exists : Accepted (ofPredicate registry scopes clause (.exists plan negated)) ↔
    Accepted (Select.ofPlan registry scopes .existence plan) := accepted_map

theorem accepted_and {items : List Predicate} : Accepted (ofPredicate registry scopes clause (.and items)) ↔
    ∀ p ∈ items, Accepted (ofPredicate registry scopes clause p) := accepted_map.trans accepted_conditionsOfPredicates

theorem accepted_or {items : List Predicate} : Accepted (ofPredicate registry scopes clause (.or items)) ↔
    ∀ p ∈ items, Accepted (ofPredicate registry scopes clause p) := accepted_map.trans accepted_conditionsOfPredicates

theorem accepted_not {inner : Predicate} : Accepted (ofPredicate registry scopes clause (.not inner)) ↔
    Accepted (ofPredicate registry scopes clause inner) := accepted_map

end Condition

theorem Output.accepted_expr : Accepted (ofProjection registry scopes (.expr expr)) ↔
    Accepted (Term.ofExpr registry scopes .select expr) := accepted_map

theorem SortKey.accepted_ordered (item : SortItem) : Accepted (ofItem registry scopes { item with expr := expr }) ↔
    Accepted (Term.ofExpr registry scopes .orderBy expr) := accepted_map

theorem JoinClause.accepted_conditional {j : Join} {c : Predicate} :
    Accepted (ofJoin registry scopes { j with condition := some c }) ↔
      Accepted (Condition.ofPredicate registry scopes .join c) := accepted_map.trans accepted_map

end Parts

/-- Every part of a query's clauses is accepted inside the given scopes. Counted rows need no order. -/
structure Plan.Resolvable (registry : Registry) (scopes : List Scope) (role : Role) (p : Plan) : Prop where
  projections : ∀ item ∈ p.projections, Accepted (Output.ofProjection registry scopes item)
  joins : ∀ j ∈ p.joins, Accepted (JoinClause.ofJoin registry scopes j)
  filters : ∀ c ∈ p.filters, Accepted (Condition.ofPredicate registry scopes .filter c)
  groups : ∀ e ∈ p.groups, Accepted (Term.ofExpr registry scopes .groupBy e)
  havings : ∀ c ∈ p.havings, Accepted (Condition.ofPredicate registry scopes .having c)
  orderings : role ≠ .counted → ∀ item ∈ p.orderings, Accepted (SortKey.ofItem registry scopes item)

/-- What is checked of a query besides the parts of its clauses. -/
structure Plan.Sound (role : Role) (p : Plan) (scope : Scope) : Prop where
  projected : Accepted (checkProjections scope role p.projections)
  grouped : Accepted p.checkGrouping
  fetched : Accepted (p.fetches role)

/-- A query is accepted in the scope that it opens inside of those around it. -/
theorem Select.accepted_ofPlan {p : Plan} : Accepted (ofPlan registry outer role p) ↔
    ∃ scope, Scope.ofPlan registry outer p = .ok scope ∧ p.Sound role scope ∧
      p.Resolvable registry (scope :: outer) role := by
  cases p with
  | mk projections sources joins filters groups havings orderings offset limit distinct =>
    unfold ofPlan
    refine accepted_bind.trans (exists_congr fun scope => and_congr_right fun _ => ?_)
    -- Only what follows the other clauses depends on the role: counted rows are not sorted.
    have ordered {outputs fetches clauses conditions terms restrictions} : Accepted (if role = .counted then
        .ok (Select.mk distinct outputs [] sources clauses scope.generated conditions terms restrictions [] none none)
      else do
        let keys ← keysOfItems registry (scope :: outer) orderings
        .ok (Select.mk distinct outputs fetches sources clauses scope.generated conditions terms restrictions keys limit
          offset)) ↔
        (role ≠ .counted → ∀ item ∈ orderings, Accepted (SortKey.ofItem registry (scope :: outer) item)) := by
      rw [← accepted_mapM, ← keysOfItems_eq]
      split
      case isTrue counted => exact iff_of_true (accepted_ok _) fun kept => absurd counted kept
      case isFalse kept => exact accepted_map.trans ⟨fun keys _ => keys, fun keys => keys kept⟩
    refine (accepted_seq fun _ => accepted_seq fun _ => accepted_seq fun _ => accepted_seq fun _ => accepted_seq fun _ =>
      accepted_seq fun _ => accepted_seq fun _ => accepted_seq fun _ => ordered).trans ?_
    rw [outputsOfProjections_eq, clausesOfJoins_eq, accepted_mapM, accepted_mapM, accepted_conditionsOfPredicates,
      accepted_termsOfExprs, accepted_conditionsOfPredicates]
    constructor
    · rintro ⟨projected, grouped, outputs, fetched, joins, filters, groups, havings, orderings⟩
      exact ⟨⟨projected, grouped, fetched⟩, ⟨outputs, joins, filters, groups, havings, orderings⟩⟩
    · rintro ⟨sound, parts⟩
      exact ⟨sound.projected, sound.grouped, parts.projections, sound.fetched, parts.joins, parts.filters, parts.groups,
        parts.havings, parts.orderings⟩

end EntityMapper
