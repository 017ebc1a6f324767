import EntityMapper.Query.Builder
import EntityMapper.Proofs.Action
import EntityMapper.Proofs.Query.Gaps
import EntityMapper.Proofs.Sql.Grammar

namespace EntityMapper

namespace Truth

instance : Std.Associative Truth.and where
  assoc a b c := by cases a <;> cases b <;> cases c <;> rfl

instance : Std.Associative Truth.or where
  assoc a b c := by cases a <;> cases b <;> cases c <;> rfl

instance : Std.LawfulIdentity Truth.and .yes where
  left_id t := by cases t <;> rfl
  right_id := and_yes

instance : Std.LawfulIdentity Truth.or .no where
  left_id t := by cases t <;> rfl
  right_id := or_no

@[simp] theorem not_not (t : Truth) : t.not.not = t := by cases t <;> rfl

end Truth

namespace Predicate

mutual

/-- The truth of a tree by the truth of its atoms, whatever that is. -/
def value (v : Predicate → Truth) : Predicate → Truth
  | .and items => .all (values v items)
  | .or items => .any (values v items)
  | .not inner => (inner.value v).not
  | .compare left op right => v (.compare left op right)
  | .between expr low high => v (.between expr low high)
  | .inValues expr members negated => v (.inValues expr members negated)
  | .inPlan expr plan negated => v (.inPlan expr plan negated)
  | .isNull expr negated => v (.isNull expr negated)
  | .exists plan negated => v (.exists plan negated)
termination_by structural p => p

def values (v : Predicate → Truth) : List Predicate → List Truth
  | [] => []
  | item :: rest => item.value v :: values v rest
termination_by structural ps => ps

end

theorem values_eq (v : Predicate → Truth) (items : List Predicate) : values v items = items.map (value v) := by
  induction items with
  | nil => rfl
  | cons item rest ih => rw [values, ih, List.map_cons]

theorem value_negate (v : Predicate → Truth) (p : Predicate) : p.negate.value v = (p.value v).not := by
  fun_cases negate p with
  | case1 inner => exact (Truth.not_not _).symm
  | case2 => rfl

theorem exprs_negate (p : Predicate) : p.negate.exprs = p.exprs := by
  fun_cases negate p with
  | case1 inner => rfl
  | case2 => rfl

section Groups

variable (op : Truth → Truth → Truth) (unit : Truth)

/-- Two lists of conditions come to the same: as a whole they are equally true, and their expressions are the same one
after the other. -/
structure Tantamount (xs ys : List Predicate) : Prop where
  value : ∀ v, (xs.map (value v)).foldr op unit = (ys.map (value v)).foldr op unit
  exprs : xs.flatMap exprs = ys.flatMap exprs

/-- A condition comes to the same as the given ones in a group of its kind. -/
structure Flattens (group : List Predicate → Predicate) (f : Predicate → Predicate → Predicate) : Prop where
  whole : ∀ items, Tantamount op unit [group items] items
  sides : ∀ p q, ∃ xs ys, f p q = group (xs ++ ys) ∧ (p = group xs ∨ xs = [p]) ∧ (q = group ys ∨ ys = [q])

variable {op unit} {xs ys zs : List Predicate} {group : List Predicate → Predicate}
  {f : Predicate → Predicate → Predicate}

theorem Tantamount.symm (same : Tantamount op unit xs ys) : Tantamount op unit ys xs :=
  ⟨fun v => (same.value v).symm, same.exprs.symm⟩

theorem Tantamount.trans (first : Tantamount op unit xs ys) (second : Tantamount op unit ys zs) :
    Tantamount op unit xs zs :=
  ⟨fun v => (first.value v).trans (second.value v), first.exprs.trans second.exprs⟩

variable [Std.Associative op] [Std.LawfulIdentity op unit]

theorem foldr_append (ts us : List Truth) : (ts ++ us).foldr op unit = op (ts.foldr op unit) (us.foldr op unit) := by
  have neutral : op unit (us.foldr op unit) = us.foldr op unit := Std.LawfulLeftIdentity.left_id _
  calc (ts ++ us).foldr op unit = ts.foldr op (us.foldr op unit) := List.foldr_append
    _ = ts.foldr op (op unit (us.foldr op unit)) := by rw [neutral]
    _ = op (ts.foldr op unit) (us.foldr op unit) := List.foldr_assoc

theorem Tantamount.append {xs' ys' : List Predicate} (left : Tantamount op unit xs xs')
    (right : Tantamount op unit ys ys') : Tantamount op unit (xs ++ ys) (xs' ++ ys') := by
  refine ⟨fun v => ?_, ?_⟩
  · rw [List.map_append, List.map_append, foldr_append, foldr_append, left.value, right.value]
  · rw [List.flatMap_append, List.flatMap_append, left.exprs, right.exprs]

/-- A combination comes to the same as its two sides, whether these are groups that it takes apart or not. -/
theorem Flattens.pair (flattens : Flattens op unit group f) (p q : Predicate) : Tantamount op unit [f p q] [p, q] := by
  have side {p : Predicate} {xs : List Predicate} (items : p = group xs ∨ xs = [p]) : Tantamount op unit [p] xs := by
    rcases items with rfl | rfl
    · exact flattens.whole xs
    · exact ⟨fun _ => rfl, rfl⟩
  obtain ⟨xs, ys, combined, left, right⟩ := flattens.sides p q
  rw [combined]
  exact (flattens.whole (xs ++ ys)).trans ((side left).append (side right)).symm

/-- Conditions that are combined one after the other come to the same as all of them. -/
theorem Flattens.foldl (flattens : Flattens op unit group f) (first : Predicate) (rest : List Predicate) :
    Tantamount op unit [rest.foldl f first] (first :: rest) := by
  induction rest generalizing first with
  | nil => exact ⟨fun _ => rfl, rfl⟩
  | cons next rest ih =>
    have both : Tantamount op unit ([f first next] ++ rest) ([first, next] ++ rest) :=
      (flattens.pair first next).append ⟨fun _ => rfl, rfl⟩
    exact (ih (f first next)).trans both

end Groups

theorem flattens_conjoin : Flattens .and .yes .and conjoin where
  whole items := ⟨fun v => by simp [value, values_eq, Truth.all], by simp [exprs, exprsOfAll_eq]⟩
  sides p q := by
    fun_cases conjoin p q with
    | case1 left right => exact ⟨left, right, rfl, .inl rfl, .inl rfl⟩
    | case2 left other => exact ⟨left, [q], rfl, .inl rfl, .inr rfl⟩
    | case3 => exact ⟨[p], [q], rfl, .inr rfl, .inr rfl⟩

theorem flattens_disjoin : Flattens .or .no .or disjoin where
  whole items := ⟨fun v => by simp [value, values_eq, Truth.any], by simp [exprs, exprsOfAll_eq]⟩
  sides p q := by
    fun_cases disjoin p q with
    | case1 left right => exact ⟨left, right, rfl, .inl rfl, .inl rfl⟩
    | case2 left other => exact ⟨left, [q], rfl, .inl rfl, .inr rfl⟩
    | case3 => exact ⟨[p], [q], rfl, .inr rfl, .inr rfl⟩

/-- A condition is as true as others are together, and has their expressions one after the other. -/
structure Conveys (p : Predicate) (together : List Truth → Truth) (items : List Predicate) : Prop where
  value : ∀ v, p.value v = together (items.map (value v))
  exprs : p.exprs = items.flatMap exprs

theorem Tantamount.conveys {op : Truth → Truth → Truth} {unit : Truth} [Std.LawfulIdentity op unit] {p : Predicate}
    {items : List Predicate} (same : Tantamount op unit [p] items) : p.Conveys (List.foldr op unit) items := by
  refine ⟨fun v => ?_, ?_⟩
  · rw [← same.value v]
    exact (Std.LawfulRightIdentity.right_id _).symm
  · rw [← same.exprs, List.flatMap_singleton]

theorem conveys_all? {items : List Predicate} {p : Predicate} (built : all? items = some p) : p.Conveys .all items := by
  cases items with
  | nil => cases built
  | cons first rest =>
    cases built
    exact (flattens_conjoin.foldl first rest).conveys

theorem conveys_any? {items : List Predicate} {p : Predicate} (built : any? items = some p) : p.Conveys .any items := by
  cases items with
  | nil => cases built
  | cons first rest =>
    cases built
    exact (flattens_disjoin.foldl first rest).conveys

theorem all?_eq_none {items : List Predicate} : all? items = none ↔ items = [] := by
  cases items <;> simp [all?]

theorem any?_eq_none {items : List Predicate} : any? items = none ↔ items = [] := by
  cases items <;> simp [any?]

end Predicate

open Predicate

namespace Plan

variable {p : Plan} {before : List Join} {last : Join}

theorem on_of_joins (joins : p.joins = before ++ [last]) (c : Predicate) :
    p.on c = .ok { p with
      joins := before ++ [{ last with condition := some (last.condition.elim c (·.conjoin c)) }] } := by
  rw [on, changeLastJoin, joins, List.getLast?_concat, List.dropLast_concat]

theorem on_of_none (none : p.joins = []) (c : Predicate) : p.on c = .error (.invalidPlan (.noJoin "on")) := by
  rw [on, changeLastJoin, none, List.getLast?_nil]

/-- Conditions that are given one after the other are combined with the one that the join has. -/
theorem on_repeated (joins : p.joins = before ++ [last]) (conditions : List Predicate) :
    conditions.foldlM on p = .ok { p with
      joins := before ++ [{ last with condition := all? (last.condition.toList ++ conditions) }] } := by
  induction conditions generalizing p last with
  | nil =>
    have same : all? (last.condition.toList ++ []) = last.condition := by cases last.condition <;> rfl
    rw [same]
    cases p
    cases last
    cases joins
    rfl
  | cons c rest ih =>
    rw [List.foldlM_cons, on_of_joins joins, Except.ok_bind, ih rfl]
    cases last.condition <;> rfl

end Plan

/-- Combining conditions keeps what they mean and the expressions in them, whatever trees they are and whatever truth
their atoms have. All or any of a list is absent for the empty list only; a conjunction, a disjunction and a negation
are as true as their sides make them; and conditions that are given to the join made last hold together with the one
that it has. The expressions of the items follow each other in order. -/
theorem combinations_convey :
    (∀ items, (all? items = none ↔ items = []) ∧ ∀ p ∈ all? items, p.Conveys .all items) ∧
      (∀ items, (any? items = none ↔ items = []) ∧ ∀ p ∈ any? items, p.Conveys .any items) ∧
      (∀ p q : Predicate, (∀ v, (p.conjoin q).value v = (p.value v).and (q.value v)) ∧
        (p.conjoin q).exprs = p.exprs ++ q.exprs) ∧
      (∀ p q : Predicate, (∀ v, (p.disjoin q).value v = (p.value v).or (q.value v)) ∧
        (p.disjoin q).exprs = p.exprs ++ q.exprs) ∧
      (∀ p : Predicate, (∀ v, p.negate.value v = (p.value v).not) ∧ p.negate.exprs = p.exprs) ∧
      (∀ (plan : Plan) (before : List Join) (last : Join) (conditions : List Predicate), plan.joins = before ++ [last] →
        ∃ joined, conditions.foldlM Plan.on plan =
            .ok { plan with joins := before ++ [{ last with condition := joined }] } ∧
          (joined = none ↔ last.condition.toList ++ conditions = []) ∧
          ∀ c ∈ joined, c.Conveys .all (last.condition.toList ++ conditions)) ∧
      ∀ (plan : Plan) (c : Predicate), plan.joins = [] → plan.on c = .error (.invalidPlan (.noJoin "on")) := by
  refine ⟨fun items => ⟨all?_eq_none, fun p => conveys_all?⟩, fun items => ⟨any?_eq_none, fun p => conveys_any?⟩,
    fun p q => ?_, fun p q => ?_, fun p => ⟨fun v => value_negate v p, exprs_negate p⟩,
    fun plan before last conditions joins => ?_, fun plan c none => Plan.on_of_none none c⟩
  · have both := (flattens_conjoin.pair p q).conveys
    exact ⟨fun v => (both.value v).trans (congrArg _ (Truth.and_yes _)), by simpa using both.exprs⟩
  · have both := (flattens_disjoin.pair p q).conveys
    exact ⟨fun v => (both.value v).trans (congrArg _ (Truth.or_no _)), by simpa using both.exprs⟩
  · exact ⟨_, Plan.on_repeated joins conditions, all?_eq_none, fun c => conveys_all?⟩

end EntityMapper
