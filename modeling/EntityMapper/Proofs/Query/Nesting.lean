import Mathlib.Tactic.Common
import EntityMapper.Compile.Scope

namespace EntityMapper

/-- The subquery that an expression is, which may be an argument of aggregates. -/
def Expr.plan? : Expr → Option Plan
  | .subquery plan => some plan
  | .aggregate _ argument _ => argument.plan?
  | .path _ | .literal _ => none
termination_by structural e => e

namespace Predicate

mutual

/-- The plans in which a condition looks for members or for rows. Those that are expressions are not among them. -/
def plans : Predicate → List Plan
  | .inPlan _ plan _ => [plan]
  | .exists plan _ => [plan]
  | .and items => plansOfAll items
  | .or items => plansOfAll items
  | .not inner => inner.plans
  | .compare .. | .between .. | .inValues .. | .isNull .. => []
termination_by structural p => p

def plansOfAll : List Predicate → List Plan
  | [] => []
  | item :: rest => item.plans ++ plansOfAll rest
termination_by structural ps => ps

end

mutual

/-- What a condition looks for in empty lists. -/
def sought : Predicate → List Expr
  | .inValues expr values _ => if values.isEmpty then [expr] else []
  | .and items => soughtOfAll items
  | .or items => soughtOfAll items
  | .not inner => inner.sought
  | .compare .. | .between .. | .inPlan .. | .isNull .. | .exists .. => []
termination_by structural p => p

def soughtOfAll : List Predicate → List Expr
  | [] => []
  | item :: rest => item.sought ++ soughtOfAll rest
termination_by structural ps => ps

end

end Predicate

namespace Plan

def joinConditions (p : Plan) : List Predicate := p.joins.filterMap (·.condition)

/-- The conditions of a query's clauses. -/
def conditions (p : Plan) : List Predicate := p.joinConditions ++ (p.filters ++ p.havings)

/-- The expressions of a query's clauses outside of its join conditions. Those inside subqueries are not among them. -/
def freeExprs (p : Plan) : List Expr :=
  p.projections.filterMap (·.expr?) ++ (p.filters ++ p.havings).flatMap Predicate.exprs ++ p.groups ++
    p.orderings.map (·.expr)

def exprs (p : Plan) : List Expr := p.freeExprs ++ p.joinConditions.flatMap Predicate.exprs

/-- The subqueries in a query's own clauses. -/
def inner (p : Plan) : List Plan := p.exprs.filterMap Expr.plan? ++ p.conditions.flatMap Predicate.plans

/-- The paths that a query's conditions on rows and on groups look for in empty lists. -/
def sought (p : Plan) : List Path := ((p.filters ++ p.havings).flatMap Predicate.sought).filterMap Expr.path?

/-- A query contains itself and the subqueries of every query that it contains. -/
inductive Contains (p : Plan) : Plan → Prop
  | self : Contains p p
  | inner {q r : Plan} : Contains p q → r ∈ q.inner → Contains p r

end Plan

theorem Expr.sizeOf_plan? : ∀ {e : Expr} {q : Plan}, e.plan? = some q → sizeOf q < sizeOf e
  | .subquery plan, _, found => by
    cases found
    simp
  | .aggregate f argument distinct, _, found => by
    have smaller := Expr.sizeOf_plan? (e := argument) found
    simp only [aggregate.sizeOf_spec]
    omega

namespace Predicate

mutual

/-- What stands in a condition is smaller than the condition. -/
theorem sizeOf_parts : ∀ p : Predicate, (∀ e ∈ p.exprs, sizeOf e < sizeOf p) ∧ ∀ q ∈ p.plans, sizeOf q < sizeOf p
  | .compare left op right => by
    refine ⟨fun e member => ?_, fun q none => absurd none List.not_mem_nil⟩
    simp only [exprs, List.mem_cons, List.not_mem_nil, or_false] at member
    rcases member with rfl | rfl <;> simp only [compare.sizeOf_spec] <;> omega
  | .between expr low high => by
    refine ⟨fun e member => ?_, fun q none => absurd none List.not_mem_nil⟩
    simp only [exprs, List.mem_cons, List.not_mem_nil, or_false] at member
    rcases member with rfl | rfl | rfl <;> simp only [between.sizeOf_spec] <;> omega
  | .inValues expr values negated => by
    refine ⟨fun e member => ?_, fun q none => absurd none List.not_mem_nil⟩
    simp only [inValues.sizeOf_spec]
    rcases List.mem_cons.mp member with rfl | inside
    · omega
    · have smaller := List.sizeOf_lt_of_mem inside
      omega
  | .inPlan expr plan negated => by
    simp only [exprs, plans, List.forall_mem_singleton, inPlan.sizeOf_spec]
    omega
  | .isNull expr negated => by
    refine ⟨?_, fun q none => absurd none List.not_mem_nil⟩
    simp only [exprs, List.forall_mem_singleton, isNull.sizeOf_spec]
    omega
  | .exists plan negated => by
    refine ⟨fun e none => absurd none List.not_mem_nil, ?_⟩
    simp only [plans, List.forall_mem_singleton, exists.sizeOf_spec]
    omega
  | .and items => by
    obtain ⟨exprs, plans⟩ := sizeOf_partsOfAll items
    simp only [and.sizeOf_spec]
    exact ⟨fun e member => Nat.lt_trans (exprs e member) (by omega),
      fun q member => Nat.lt_trans (plans q member) (by omega)⟩
  | .or items => by
    obtain ⟨exprs, plans⟩ := sizeOf_partsOfAll items
    simp only [or.sizeOf_spec]
    exact ⟨fun e member => Nat.lt_trans (exprs e member) (by omega),
      fun q member => Nat.lt_trans (plans q member) (by omega)⟩
  | .not inner => by
    obtain ⟨exprs, plans⟩ := sizeOf_parts inner
    simp only [not.sizeOf_spec]
    exact ⟨fun e member => Nat.lt_trans (exprs e member) (by omega),
      fun q member => Nat.lt_trans (plans q member) (by omega)⟩
termination_by structural p => p

theorem sizeOf_partsOfAll : ∀ ps : List Predicate,
    (∀ e ∈ exprsOfAll ps, sizeOf e < sizeOf ps) ∧ ∀ q ∈ plansOfAll ps, sizeOf q < sizeOf ps
  | [] => ⟨fun _ none => absurd none List.not_mem_nil, fun _ none => absurd none List.not_mem_nil⟩
  | p :: rest => by
    obtain ⟨exprs, plans⟩ := sizeOf_parts p
    obtain ⟨others, more⟩ := sizeOf_partsOfAll rest
    simp only [exprsOfAll, plansOfAll, List.forall_mem_append, List.cons.sizeOf_spec]
    refine ⟨⟨fun e member => ?_, fun e member => ?_⟩, fun q member => ?_, fun q member => ?_⟩
    · exact Nat.lt_trans (exprs e member) (by omega)
    · exact Nat.lt_trans (others e member) (by omega)
    · exact Nat.lt_trans (plans q member) (by omega)
    · exact Nat.lt_trans (more q member) (by omega)
termination_by structural ps => ps

end

end Predicate

namespace Plan

/-- The expressions of a condition are those of its query. -/
theorem mem_exprs_of_conditions {p : Plan} {c : Predicate} {e : Expr} (listed : c ∈ p.conditions) (inside : e ∈ c.exprs) :
    e ∈ p.exprs := by
  have place := List.mem_flatMap.mpr ⟨c, listed, inside⟩
  rw [conditions, List.flatMap_append, List.mem_append] at place
  rcases place with joined | free
  · exact List.mem_append_right _ joined
  · exact List.mem_append_left _ (List.mem_append_left _ (List.mem_append_left _ (List.mem_append_right _ free)))

theorem sizeOf_conditions {p : Plan} {c : Predicate} (member : c ∈ p.conditions) : sizeOf c < sizeOf p := by
  cases p with
  | mk projections sources joins filters groups havings orderings offset limit distinct =>
    simp only [conditions, List.mem_append, mk.sizeOf_spec] at member ⊢
    rcases member with joined | filtered | restricted
    · obtain ⟨j, inside, condition⟩ := List.mem_filterMap.mp joined
      have smaller := List.sizeOf_lt_of_mem inside
      cases j with
      | mk kind target association own fetch =>
        cases condition
        simp only [Join.mk.sizeOf_spec, Option.some.sizeOf_spec] at smaller
        omega
    · have smaller := List.sizeOf_lt_of_mem filtered
      omega
    · have smaller := List.sizeOf_lt_of_mem restricted
      omega

theorem sizeOf_exprs {p : Plan} {e : Expr} (member : e ∈ p.exprs) : sizeOf e < sizeOf p := by
  have conditional {cs : List Predicate} (subset : ∀ c ∈ cs, c ∈ p.conditions) (inside : e ∈ cs.flatMap Predicate.exprs) :
      sizeOf e < sizeOf p := by
    obtain ⟨c, listed, within⟩ := List.mem_flatMap.mp inside
    exact Nat.lt_trans (c.sizeOf_parts.1 e within) (sizeOf_conditions (subset c listed))
  simp only [exprs, freeExprs, List.mem_append] at member
  rcases member with (((projected | restricted) | grouped) | ordered) | joined
  · obtain ⟨item, inside, expr⟩ := List.mem_filterMap.mp projected
    have smaller := List.sizeOf_lt_of_mem inside
    cases item with
    | expr own =>
      cases expr
      cases p
      simp only [mk.sizeOf_spec, Projection.expr.sizeOf_spec] at smaller ⊢
      omega
    | entity source => cases expr
  · exact conditional (fun c => List.mem_append_right _) restricted
  · have smaller := List.sizeOf_lt_of_mem grouped
    cases p
    simp only [mk.sizeOf_spec] at smaller ⊢
    omega
  · obtain ⟨item, inside, rfl⟩ := List.mem_map.mp ordered
    have smaller := List.sizeOf_lt_of_mem inside
    cases p
    cases item
    simp only [mk.sizeOf_spec, SortItem.mk.sizeOf_spec] at smaller ⊢
    omega
  · exact conditional (fun c => List.mem_append_left _) joined

theorem sizeOf_inner {p q : Plan} (member : q ∈ p.inner) : sizeOf q < sizeOf p := by
  rcases List.mem_append.mp member with own | sought
  · obtain ⟨e, inside, found⟩ := List.mem_filterMap.mp own
    exact Nat.lt_trans (Expr.sizeOf_plan? found) (sizeOf_exprs inside)
  · obtain ⟨c, inside, within⟩ := List.mem_flatMap.mp sought
    exact Nat.lt_trans (c.sizeOf_parts.2 q within) (sizeOf_conditions inside)

theorem flatMap_joinConditions (p : Plan) : (p.joins.flatMap fun j => j.condition.elim [] Predicate.exprs) =
    p.joinConditions.flatMap Predicate.exprs := by
  unfold joinConditions
  induction p.joins with
  | nil => rfl
  | cons j rest ih =>
    rw [List.flatMap_cons, ih]
    cases condition : j.condition with
    | none => rw [List.filterMap_cons_none condition, Option.elim_none, List.nil_append]
    | some c => rw [List.filterMap_cons_some condition, Option.elim_some, List.flatMap_cons]

/-- The paths for which joins are looked for are those of the clauses, each told apart by whether it stands in a join
condition. -/
theorem mem_pathUses {p : Plan} {path : Path} {inCondition : Bool} : (path, inCondition) ∈ p.pathUses ↔
    ∃ e ∈ if inCondition then p.joinConditions.flatMap Predicate.exprs else p.freeExprs, e.path? = some path := by
  have uses (given : Bool) (es : List Expr) : (path, inCondition) ∈ es.filterMap (fun e => e.path?.map (·, given)) ↔
      given = inCondition ∧ ∃ e ∈ es, e.path? = some path := by
    simp only [List.mem_filterMap, Option.map_eq_some_iff, Prod.mk.injEq]
    constructor
    · rintro ⟨e, member, _, found, rfl, same⟩
      exact ⟨same, e, member, found⟩
    · rintro ⟨same, e, member, found⟩
      exact ⟨e, member, path, found, rfl, same⟩
  unfold pathUses
  simp only [flatMap_joinConditions, List.mem_append, uses]
  cases inCondition with
  | false => simp [freeExprs, or_and_right, exists_or, or_assoc]
  | true => simp

/-- What holds of a query when it holds of its subqueries holds of every query. -/
theorem inner_induction {P : Plan → Prop} (step : ∀ p, (∀ q ∈ p.inner, P q) → P p) (p : Plan) : P p :=
  step p fun q _ => inner_induction step q
termination_by sizeOf p
decreasing_by exact sizeOf_inner (by assumption)

end Plan

end EntityMapper
