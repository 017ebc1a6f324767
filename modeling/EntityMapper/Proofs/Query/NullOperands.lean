import EntityMapper.Proofs.Action
import EntityMapper.Query.Builder

namespace EntityMapper

/-- A call of one of the constructors that check what they compare. -/
inductive Comparison where
  | compare (left : Expr) (op : CompareOp) (right : Expr)
  | between (expr low high : Expr)
  | inValues (expr : Expr) (values : List Expr) (negated : Bool)
  | inPlan (expr : Expr) (plan : Plan) (negated : Bool)

/-- The types of two operands compare with each other, as far as both have one. -/
def TypesMeet (left right : Option DataType) : Prop := ∀ a b, left = some a → right = some b → a.comparable b

namespace Comparison

def build : Comparison → Except Error Predicate
  | compare left op right => left.compare op right
  | between expr low high => expr.between low high
  | inValues expr values negated => expr.inValues values negated
  | inPlan expr plan negated => expr.inPlan plan negated

/-- The condition that is asked for. -/
def predicate : Comparison → Predicate
  | compare left op right => .compare left op right
  | between expr low high => .between expr low high
  | inValues expr values negated => .inValues expr values negated
  | inPlan expr plan negated => .inPlan expr plan negated

def operation : Comparison → String
  | compare _ op _ => op.name
  | between .. => "between"
  | inValues .. | inPlan .. => "in"

/-- The expression that the operands are compared with. -/
def subject : Comparison → Expr
  | compare left _ _ => left
  | between expr _ _ | inValues expr _ _ | inPlan expr _ _ => expr

/-- The operands that are compared with the subject, in the order in which they are checked. -/
def operands : Comparison → List Expr
  | compare _ _ right => [right]
  | between _ low high => [low, high]
  | inValues _ values _ => values
  | inPlan .. => []

/-- The subquery whose rows are compared with the subject. -/
def plan? : Comparison → Option Plan
  | inPlan _ plan _ => some plan
  | compare .. | between .. | inValues .. => none

/-- An operand, which may be the subject, is null. -/
def HasNull (c : Comparison) : Prop := .literal .null ∈ c.subject :: c.operands

/-- Whatever is compared has types that compare, and a subquery projects one scalar. -/
structure WellTyped (c : Comparison) : Prop where
  operands : ∀ e ∈ c.operands, TypesMeet c.subject.dataType? e.dataType?
  rows : ∀ plan, c.plan? = some plan →
    ∃ e, plan.projections = [.expr e] ∧ TypesMeet c.subject.dataType? e.dataType?

/-- Nothing is compared with null one by one. The rows of a subquery may be. -/
def NullFree (c : Comparison) : Prop := ∀ e ∈ c.operands, c.subject ≠ .literal .null ∧ e ≠ .literal .null

/-- From the first operand on, null is compared before two types are that do not compare. -/
def MeetsNull (c : Comparison) : Prop :=
  ∃ before e after, c.operands = before ++ e :: after ∧ (c.subject = .literal .null ∨ e = .literal .null) ∧
    ∀ o ∈ before, TypesMeet c.subject.dataType? o.dataType?

/-- Null operands are refused as an argument, and without them the types decide. -/
structure Settled (c : Comparison) : Prop where
  refused : c.HasNull → ∃ fault, c.build = .error (.invalidArgument fault)
  accepted : ¬c.HasNull → ((∃ p, c.build = .ok p) ↔ c.WellTyped)

end Comparison

theorem Expr.isNullLiteral_iff {e : Expr} : e.isNullLiteral ↔ e = .literal .null := by
  constructor
  · intro null
    unfold isNullLiteral at null
    split at null
    · rfl
    · cases null
  · rintro rfl
    rfl

section Checks

variable {operation : String} {left right : Option DataType} {a b : Expr}

theorem checkTypes_eq_ok : checkTypes operation left right = .ok () ↔ TypesMeet left right := by
  unfold checkTypes
  split
  case h_1 s t =>
    have meet : TypesMeet (some s) (some t) ↔ s.comparable t :=
      ⟨fun meets => meets s t rfl rfl, fun comparable _ _ own other => by cases own; cases other; exact comparable⟩
    rw [meet]
    split
    case isTrue comparable => exact ⟨fun _ => comparable, fun _ => rfl⟩
    case isFalse distinct => exact ⟨fun run => (nomatch run), fun comparable => absurd comparable distinct⟩
  case h_2 untyped => exact ⟨fun _ s t own other => absurd other (untyped s t own), fun _ => rfl⟩

/-- Types that do not compare are no fault of an argument. -/
theorem checkTypes_error {e : Error} (run : checkTypes operation left right = .error e) :
    ∃ s t, e = .typeMismatch operation s t := by
  unfold checkTypes at run
  split at run
  case h_1 s t =>
    split at run
    · cases run
    · cases run
      exact ⟨s, t, rfl⟩
  case h_2 => cases run

theorem checkOperands_null (null : a = .literal .null ∨ b = .literal .null) :
    checkOperands operation a b = .error (.invalidArgument (.nullOperand operation)) := by
  rw [← Expr.isNullLiteral_iff, ← Expr.isNullLiteral_iff, ← Bool.or_eq_true] at null
  exact if_pos null

theorem checkOperands_typed (typed : ¬(a = .literal .null ∨ b = .literal .null)) :
    checkOperands operation a b = checkTypes operation a.dataType? b.dataType? := by
  rw [← Expr.isNullLiteral_iff, ← Expr.isNullLiteral_iff, ← Bool.or_eq_true] at typed
  exact if_neg typed

theorem checkOperands_eq_ok : checkOperands operation a b = .ok () ↔
    (a ≠ .literal .null ∧ b ≠ .literal .null) ∧ TypesMeet a.dataType? b.dataType? := by
  by_cases null : a = .literal .null ∨ b = .literal .null
  · rw [checkOperands_null null]
    exact ⟨fun run => (nomatch run), fun ⟨free, _⟩ => absurd null (not_or.mpr free)⟩
  · rw [checkOperands_typed null, checkTypes_eq_ok]
    exact ⟨fun meet => ⟨not_or.mp null, meet⟩, fun ⟨_, meet⟩ => meet⟩

theorem checkOperands_eq_refused :
    (∃ fault, checkOperands operation a b = .error (.invalidArgument fault)) ↔
      a = .literal .null ∨ b = .literal .null := by
  by_cases null : a = .literal .null ∨ b = .literal .null
  · exact ⟨fun _ => null, fun _ => ⟨_, checkOperands_null null⟩⟩
  · refine ⟨fun ⟨fault, run⟩ => ?_, fun some => absurd some null⟩
    rw [checkOperands_typed null] at run
    obtain ⟨s, t, mismatch⟩ := checkTypes_error run
    cases mismatch

theorem Plan.scalarType_eq_ok {p : Plan} {type? : Option DataType} :
    p.scalarType = .ok type? ↔ ∃ e, p.projections = [.expr e] ∧ e.dataType? = type? := by
  unfold scalarType
  split
  case h_1 e single =>
    rw [single]
    constructor
    · intro run
      cases run
      exact ⟨e, rfl, rfl⟩
    · rintro ⟨_, same, rfl⟩
      cases same
      rfl
  case h_2 other => exact ⟨fun run => (nomatch run), fun ⟨e, single, _⟩ => absurd single (other e)⟩

theorem Plan.scalarType_error {p : Plan} {e : Error} (run : p.scalarType = .error e) : e = .invalidPlan .notScalar := by
  unfold scalarType at run
  split at run
  · cases run
  · cases run
    rfl

end Checks

namespace Comparison

variable {c : Comparison}

/-- The rows of a subquery are checked by their type alone. -/
def checkRows (c : Comparison) : Except Error Unit :=
  match c.plan? with
  | none => .ok ()
  | some plan => do
    let element ← plan.scalarType
    checkTypes c.operation c.subject.dataType? element

/-- Every constructor checks its operands one by one, then the rows of a subquery. -/
theorem build_eq (c : Comparison) : c.build = (do
    c.operands.forM (checkOperands c.operation c.subject)
    c.checkRows
    .ok c.predicate) := by
  cases c with
  | compare left op right =>
    show (checkOperands op.name left right >>= _) = ((checkOperands op.name left right >>= _) >>= _)
    cases checkOperands op.name left right <;> rfl
  | between expr low high =>
    show (checkOperands "between" expr low >>= _) = ((checkOperands "between" expr low >>= _) >>= _)
    cases checkOperands "between" expr low with
    | error e => rfl
    | ok _ =>
      show (checkOperands "between" expr high >>= _) = ((checkOperands "between" expr high >>= _) >>= _)
      cases checkOperands "between" expr high <;> rfl
  | inValues expr values negated => rfl
  | inPlan expr plan negated =>
    show (plan.scalarType >>= _) = ((plan.scalarType >>= _) >>= _)
    cases plan.scalarType <;> rfl

theorem checkRows_eq_ok : c.checkRows = .ok () ↔
    ∀ plan, c.plan? = some plan → ∃ e, plan.projections = [.expr e] ∧ TypesMeet c.subject.dataType? e.dataType? := by
  unfold checkRows
  split
  case h_1 none => exact ⟨fun _ plan some => (nomatch none.symm.trans some), fun _ => rfl⟩
  case h_2 plan found =>
    rw [Except.bind_eq_ok]
    constructor
    · rintro ⟨_, projects, meet⟩ _ same
      cases found.symm.trans same
      obtain ⟨e, single, rfl⟩ := Plan.scalarType_eq_ok.mp projects
      exact ⟨e, single, checkTypes_eq_ok.mp meet⟩
    · intro rows
      obtain ⟨e, single, meet⟩ := rows plan found
      exact ⟨_, Plan.scalarType_eq_ok.mpr ⟨e, single, rfl⟩, checkTypes_eq_ok.mpr meet⟩

/-- A subquery is refused as a plan or for its type, never as an argument. -/
theorem checkRows_error {fault : ArgumentFault} : c.checkRows ≠ .error (.invalidArgument fault) := by
  intro run
  unfold checkRows at run
  split at run
  case h_1 => cases run
  case h_2 plan _ =>
    rcases Except.bind_eq_error run with unscalar | ⟨_, _, mismatch⟩
    · cases Plan.scalarType_error unscalar
    · obtain ⟨s, t, other⟩ := checkTypes_error mismatch
      cases other

theorem build_eq_ok {p : Predicate} : c.build = .ok p ↔ p = c.predicate ∧ c.WellTyped ∧ c.NullFree := by
  rw [build_eq, Except.bind_eq_ok]
  constructor
  · rintro ⟨_, operands, run⟩
    obtain ⟨_, rows, run⟩ := Except.bind_eq_ok.mp run
    cases run
    have checked (e : Expr) (listed : e ∈ c.operands) := checkOperands_eq_ok.mp (Except.forM_eq_ok.mp operands e listed)
    exact ⟨rfl, ⟨fun e listed => (checked e listed).2, checkRows_eq_ok.mp rows⟩, fun e listed => (checked e listed).1⟩
  · rintro ⟨rfl, typed, free⟩
    have checked (e : Expr) (listed : e ∈ c.operands) : checkOperands c.operation c.subject e = .ok () :=
      checkOperands_eq_ok.mpr ⟨free e listed, typed.operands e listed⟩
    exact ⟨(), Except.forM_eq_ok.mpr checked, Except.bind_eq_ok.mpr ⟨(), checkRows_eq_ok.mpr typed.rows, rfl⟩⟩

/-- As long as types compare, the checks come to the null operand behind them, if not to one before. -/
theorem forM_checkOperands_null {operation : String} {subject e : Expr} {before : List Expr} (after : List Expr)
    (null : subject = .literal .null ∨ e = .literal .null)
    (meet : ∀ o ∈ before, TypesMeet subject.dataType? o.dataType?) :
    (before ++ e :: after).forM (checkOperands operation subject) =
      .error (.invalidArgument (.nullOperand operation)) := by
  induction before with
  | nil =>
    rw [List.nil_append, List.forM_eq_forM, List.forM_cons, checkOperands_null null]
    rfl
  | cons o rest ih =>
    obtain ⟨own, others⟩ := List.forall_mem_cons.mp meet
    rw [List.cons_append, List.forM_eq_forM, List.forM_cons]
    by_cases sooner : subject = .literal .null ∨ o = .literal .null
    · rw [checkOperands_null sooner]
      rfl
    · rw [checkOperands_typed sooner, checkTypes_eq_ok.mpr own]
      exact ih others

theorem build_refused_iff : (∃ fault, c.build = .error (.invalidArgument fault)) ↔ c.MeetsNull := by
  constructor
  · rintro ⟨fault, run⟩
    rw [build_eq] at run
    rcases Except.bind_eq_error run with operands | ⟨_, _, run⟩
    · obtain ⟨before, e, after, split, passed, failed⟩ := Except.forM_error_split operands
      exact ⟨before, e, after, split, checkOperands_eq_refused.mp ⟨fault, failed⟩,
        fun o listed => (checkOperands_eq_ok.mp (passed o listed)).2⟩
    · rcases Except.bind_eq_error run with rows | ⟨_, _, run⟩
      · exact absurd rows checkRows_error
      · cases run
  · rintro ⟨before, e, after, split, null, meet⟩
    refine ⟨.nullOperand c.operation, ?_⟩
    rw [build_eq, split, forM_checkOperands_null after null meet]
    rfl

theorem nullFree_of_not_hasNull (none : ¬c.HasNull) : c.NullFree := by
  obtain ⟨subject, operands⟩ := not_or.mp (mt List.mem_cons.mpr none)
  exact fun e listed => ⟨Ne.symm subject, fun null => operands (null ▸ listed)⟩

theorem settled_iff_meetsNull : c.Settled ↔ (c.HasNull → c.MeetsNull) := by
  refine ⟨fun settled null => build_refused_iff.mp (settled.refused null), fun met => ?_⟩
  refine ⟨fun null => build_refused_iff.mpr (met null), fun none => ?_⟩
  constructor
  · rintro ⟨p, run⟩
    exact (build_eq_ok.mp run).2.1
  · intro typed
    exact ⟨c.predicate, build_eq_ok.mpr ⟨rfl, typed, nullFree_of_not_hasNull none⟩⟩

/-- Null compares with every type, so a null operand is met where it is the first one or those before it compare. -/
theorem meetsNull_iff_of_null_subject (null : c.subject = .literal .null) : c.MeetsNull ↔ c.operands ≠ [] := by
  constructor
  · rintro ⟨before, e, after, split, _⟩ none
    rw [none] at split
    exact absurd split.symm (by simp)
  · intro filled
    obtain ⟨e, after, split⟩ := List.exists_cons_of_ne_nil filled
    exact ⟨[], e, after, split, .inl null, fun _ none => absurd none List.not_mem_nil⟩

theorem typesMeet_null {left : Option DataType} : TypesMeet left (Expr.literal .null).dataType? :=
  fun _ _ _ none => nomatch none

/-- Behind a subject that is not null, the first null operand is overlooked if one before it does not compare. -/
theorem not_meetsNull_iff (valued : c.subject ≠ .literal .null) (null : .literal .null ∈ c.operands) :
    ¬c.MeetsNull ↔ ∃ before e after, c.operands = before ++ e :: after ∧
      ¬TypesMeet c.subject.dataType? e.dataType? ∧ .literal .null ∉ before ∧ .literal .null ∈ after := by
  constructor
  · intro unmet
    obtain ⟨before, after, split, first⟩ := List.eq_append_cons_of_mem null
    by_contra none
    refine unmet ⟨before, _, after, split, .inr rfl, fun o listed => ?_⟩
    by_contra apart
    obtain ⟨start, rest, own⟩ := List.append_of_mem listed
    refine none ⟨start, o, rest ++ .literal .null :: after, ?_, apart, ?_, ?_⟩
    · rw [split, own, List.append_assoc, List.cons_append]
    · exact fun sooner => first (own ▸ List.mem_append_left _ sooner)
    · exact List.mem_append_right _ List.mem_cons_self
  · rintro ⟨before, e, after, split, apart, none, _⟩ ⟨others, o, rest, again, subject | rfl, meet⟩
    · exact valued subject
    · rcases List.append_eq_append_iff.mp (split.symm.trans again) with ⟨middle, rfl, found⟩ | ⟨middle, rfl, found⟩
      · cases middle with
        | nil =>
          cases found
          exact apart typesMeet_null
        | cons first later =>
          cases found
          exact apart (meet e (List.mem_append_right _ List.mem_cons_self))
      · cases middle with
        | nil =>
          cases found
          exact apart typesMeet_null
        | cons first later =>
          cases found
          exact none (List.mem_append_right _ List.mem_cons_self)

/-- The calls with a null operand that are not answered for it: a null subject of a subquery or of an empty list, and
null behind an operand that does not compare. -/
def Overlooks : Comparison → Prop
  | compare .. => False
  | between expr low high => expr ≠ .literal .null ∧ high = .literal .null ∧ ¬TypesMeet expr.dataType? low.dataType?
  | inValues expr values _ => expr = .literal .null ∧ values = [] ∨ expr ≠ .literal .null ∧
      ∃ before e after, values = before ++ e :: after ∧ ¬TypesMeet expr.dataType? e.dataType? ∧
        .literal .null ∉ before ∧ .literal .null ∈ after
  | inPlan expr _ _ => expr = .literal .null

/-- Of two operands only the first one has one behind it. -/
theorem split_pair {a b e : Expr} {before after : List Expr} (split : [a, b] = before ++ e :: after)
    (behind : after ≠ []) : e = a ∧ after = [b] := by
  match before with
  | [] =>
    cases split
    exact ⟨rfl, rfl⟩
  | [_] =>
    cases split
    exact absurd rfl behind
  | _ :: _ :: more => cases (List.append_eq_nil_iff.mp (List.cons.inj (List.cons.inj split).2).2.symm).2

theorem overlooks_iff : c.Overlooks ↔ c.HasNull ∧ ¬c.MeetsNull := by
  by_cases subject : c.subject = .literal .null
  · have null : c.HasNull := List.mem_cons.mpr (.inl subject.symm)
    have empty : c.HasNull ∧ ¬c.MeetsNull ↔ c.operands = [] := by
      rw [meetsNull_iff_of_null_subject subject, not_not]
      exact and_iff_right null
    rw [empty]
    cases c with
    | compare left op right => exact ⟨False.elim, fun none => nomatch none⟩
    | between expr low high => exact ⟨fun ⟨valued, _⟩ => absurd subject valued, fun none => nomatch none⟩
    | inValues expr values negated =>
      exact ⟨fun cases => cases.elim And.right fun ⟨valued, _⟩ => absurd subject valued, fun none => .inl ⟨subject, none⟩⟩
    | inPlan expr plan negated => exact ⟨fun _ => rfl, fun _ => subject⟩
  · have listed : c.HasNull ↔ .literal .null ∈ c.operands := by
      rw [HasNull, List.mem_cons]
      exact or_iff_right (Ne.symm subject)
    rw [listed, and_congr_right fun null => not_meetsNull_iff subject null]
    cases c with
    | compare left op right =>
      refine ⟨False.elim, ?_⟩
      rintro ⟨_, _ | ⟨_, before⟩, e, after, split, _, _, null⟩
      · cases split
        cases null
      · cases (List.append_eq_nil_iff.mp (List.cons.inj split).2.symm).2
    | between expr low high =>
      constructor
      · rintro ⟨_, rfl, apart⟩
        exact ⟨by simp [operands], [], low, [_], rfl, apart, List.not_mem_nil, List.mem_cons_self⟩
      · rintro ⟨_, before, e, after, split, apart, _, null⟩
        obtain ⟨rfl, rfl⟩ := split_pair split (List.ne_nil_of_mem null)
        exact ⟨subject, (List.mem_singleton.mp null).symm, apart⟩
    | inValues expr values negated =>
      constructor
      · rintro (⟨null, _⟩ | ⟨_, before, e, after, split, apart, none, null⟩)
        · exact absurd null subject
        · have member : .literal .null ∈ values := split ▸ List.mem_append_right _ (List.mem_cons_of_mem _ null)
          exact ⟨member, before, e, after, split, apart, none, null⟩
      · exact fun ⟨_, overlooked⟩ => .inr ⟨subject, overlooked⟩
    | inPlan expr plan negated => exact ⟨fun null => absurd null subject, fun ⟨member, _⟩ => nomatch member⟩

/-- The constructors refuse null operands, and otherwise what does not compare, exactly in those calls that do not
overlook null. A call succeeds with the condition it asks for. -/
theorem settled_iff (c : Comparison) :
    (∀ p, c.build = .ok p ↔ p = c.predicate ∧ c.WellTyped ∧ c.NullFree) ∧ (c.Settled ↔ ¬c.Overlooks) := by
  refine ⟨fun p => build_eq_ok, ?_⟩
  rw [settled_iff_meetsNull, overlooks_iff]
  tauto

def age : Expr := .path ⟨"m", "Member", [], "age", "age", .integer⟩

def ages : Plan := Plan.empty.select [.expr age]

/-- Null behind a number is refused in a list, and null is not refused as the subject of a subquery. -/
theorem settled_iff_ages : (inValues age [.literal (.int 30), .literal .null] false).Settled ∧
    ¬(inPlan (.literal .null) ages false).Settled := by
  refine ⟨(settled_iff _).2.mpr ?_, mt (settled_iff _).2.mp (not_not.mpr rfl)⟩
  rintro (⟨subject, _⟩ | ⟨_, before, e, after, split, apart, _, null⟩)
  · cases subject
  · obtain ⟨rfl, _⟩ := split_pair split (List.ne_nil_of_mem null)
    exact apart fun _ _ own other => by cases own; cases other; rfl

/-- Null is accepted as the subject of a subquery and of an empty list, and behind an operand that does not compare the
types are refused in its place. -/
theorem build_overlooks_null :
    ((inPlan (.literal .null) ages false).build = .ok (.inPlan (.literal .null) ages false) ∧
      ¬(inPlan (.literal .null) ages false).Settled) ∧
    ((inValues (.literal .null) [] true).build = .ok (.inValues (.literal .null) [] true) ∧
      ¬(inValues (.literal .null) [] true).Settled) ∧
    ((between age (.literal (.text "x")) (.literal .null)).build = .error (.typeMismatch "between" .integer .text) ∧
      ¬(between age (.literal (.text "x")) (.literal .null)).Settled) := by
  have unrefused {c : Comparison} (null : c.HasNull) (other : ∀ fault, c.build ≠ .error (.invalidArgument fault)) :
      ¬c.Settled := fun settled => (settled.refused null).elim other
  refine ⟨⟨rfl, unrefused ?_ ?_⟩, ⟨rfl, unrefused ?_ ?_⟩, rfl, unrefused ?_ ?_⟩
  · exact List.mem_cons_self
  · exact fun _ run => nomatch run
  · exact List.mem_cons_self
  · exact fun _ run => nomatch run
  · exact List.mem_cons_of_mem _ (List.mem_cons_of_mem _ List.mem_cons_self)
  · exact fun _ run => nomatch run

end Comparison

end EntityMapper
