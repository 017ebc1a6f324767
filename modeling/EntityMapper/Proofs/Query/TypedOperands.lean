import EntityMapper.Proofs.Action
import EntityMapper.Query.Builder
import EntityMapper.Query.Typed

namespace EntityMapper

/-- An expression whose subqueries have all been checked to project one scalar. -/
inductive Expr.Checked : Expr → Prop
  | path (path : Path) : Checked (.path path)
  | literal (value : Value) : Checked (.literal value)
  | aggregate {argument : Expr} (function : AggregateFunction) (distinct : Bool) (checked : Checked argument) :
      Checked (.aggregate function argument distinct)
  | subquery {plan : Plan} {e : Expr} (built : Expr.ofPlan plan = .ok e) : Checked e

namespace TypedExpr

/-- The ways to get an expression that a program reads as a type. -/
inductive Reachable : {type : HostType} → TypedExpr type → Prop
  | column {type : HostType} {a : Alias} {name : String} {e : TypedExpr type} (found : a.column type name = .ok e) :
      Reachable e
  | navigated {type : HostType} {p : AssociationPath} {name : String} {e : TypedExpr type}
      (found : p.column type name = .ok e) : Reachable e
  | literal {type : HostType} {value : Value} {e : TypedExpr type} (converted : literal type value = .ok e) :
      Reachable e
  | declared {type : HostType} {expr : Expr} {e : TypedExpr type} (checked : expr.Checked)
      (exact : declared type expr = .ok e) : Reachable e
  | scalar {type : HostType} {plan : Plan} {e : TypedExpr type} (fits : scalar type plan = .ok e) : Reachable e
  | rows (a : Alias) : Reachable (⟨a.count⟩ : TypedExpr .int64)
  | count {type : HostType} {e : TypedExpr type} (reachable : Reachable e) (distinct : Bool) :
      Reachable (e.count distinct)
  | max {type : HostType} {e : TypedExpr type} (reachable : Reachable e) : Reachable e.max
  | min {type : HostType} {e : TypedExpr type} (reachable : Reachable e) : Reachable e.min
  | avg {type : HostType} {e : TypedExpr type} (reachable : Reachable e) (numeric : type.dataType.isNumeric) :
      Reachable (e.avg numeric)
  | sum {type : HostType} {e : TypedExpr type} (reachable : Reachable e) (numeric : type.dataType.isNumeric) :
      Reachable (e.sum numeric)

end TypedExpr

/-- An operand that is a literal of the program or a reachable expression. -/
def Operand.Reachable {type : HostType} : Operand type → Prop
  | .expr e => e.Reachable
  | .literal _ _ => True

namespace OperandList

variable {type : HostType}

def Reachable : OperandList type → Prop
  | .items operands => ∀ o ∈ operands, o.Reachable
  | .expr e => e.Reachable

/-- The single values of a list. A subquery has none. -/
def values : OperandList type → List Expr
  | .items operands => operands.map Operand.toExpr
  | .expr ⟨.subquery _⟩ => []
  | .expr ⟨other⟩ => [other]

/-- The checked membership in what a list consists of. -/
def membership (e : Expr) (negated : Bool) : OperandList type → Except Error Predicate
  | .items operands => e.inValues (operands.map Operand.toExpr) negated
  | .expr ⟨.subquery plan⟩ => e.inPlan plan negated
  | .expr ⟨other⟩ => e.inValues [other] negated

end OperandList

/-- The type of an expression, if it has any, compares with the type that a program reads it as. -/
def Expr.Fits (e : Expr) (type : HostType) : Prop := ∀ own, e.dataType? = some own → own.comparable type.dataType

namespace DataType

theorem comparable_iff {a b : DataType} : a.comparable b ↔ a = b ∨ a.isNumeric ∧ b.isNumeric := by
  simp only [comparable, Bool.or_eq_true, beq_iff_eq, Bool.and_eq_true]

theorem comparable_refl (a : DataType) : a.comparable a := comparable_iff.mpr (.inl rfl)

/-- Types that compare with one type compare with each other. -/
theorem comparable_of_common {a b c : DataType} (left : a.comparable c) (right : b.comparable c) : a.comparable b := by
  rw [comparable_iff] at left right ⊢
  rcases left with rfl | ⟨numeric, common⟩
  · exact right.imp Eq.symm And.symm
  · rcases right with rfl | ⟨other, -⟩
    · exact .inr ⟨numeric, common⟩
    · exact .inr ⟨numeric, other⟩

end DataType

namespace HostType

variable {type : HostType} {v converted : Value}

/-- A converted value is of the program's type. Null is never one. -/
theorem dataType_of_convert (run : type.convert v = .ok converted) : converted.dataType? = some type.dataType := by
  have ofWhole {d : Double} {refused : Error} {read : Int64 → Except Error Value}
      (run : d.int64?.elim (.error refused) read = .ok converted)
      (integer : ∀ i, read i = .ok converted → converted.dataType? = some .integer) :
      converted.dataType? = some .integer := by
    cases whole : d.int64? with
    | none =>
      rw [whole] at run
      cases run
    | some i =>
      rw [whole] at run
      exact integer i run
  have ofNarrow {i : Int64} {refused : Error}
      (run : (if fitsInt32 i then .ok (.int i) else .error refused) = Except.ok converted) :
      converted.dataType? = some .integer := by
    split at run
    · cases run
      rfl
    · cases run
  cases type <;> cases v
  case int32.int i => exact ofNarrow run
  case int32.float d => exact ofWhole run fun i narrow => ofNarrow narrow
  case int64.float d => exact ofWhole run fun i read => by cases read; rfl
  all_goals cases run <;> rfl

/-- Literals that a type admits have a type that compares with it, so they are never null. -/
theorem fits_of_admits (admitted : type.admits v) :
    (Expr.literal v).Fits type ∧ (Expr.literal v).isNullLiteral = false := by
  cases type <;> cases v
  all_goals first
    | exact ⟨fun own known => by cases known; rfl, rfl⟩
    | cases admitted

end HostType

namespace TypedExpr

variable {type : HostType}

/-- What is declared has the declared type, or none. -/
theorem fits_of_declared {expr : Expr} {e : TypedExpr type} (run : declared type expr = .ok e) :
    e.expr = expr ∧ expr.Fits type := by
  unfold declared at run
  cases own : expr.dataType? with
  | none =>
    rw [own] at run
    cases run
    exact ⟨rfl, fun actual known => by cases own.symm.trans known⟩
  | some actual =>
    simp only [own] at run
    split at run
    case isTrue same =>
      cases run
      refine ⟨rfl, fun actual' known => ?_⟩
      cases own.symm.trans known
      rw [same]
      exact DataType.comparable_refl _
    case isFalse => cases run

end TypedExpr

theorem Expr.dataType_subquery {plan : Plan} {type? : Option DataType} (projects : plan.scalarType = .ok type?) :
    (Expr.subquery plan).dataType? = type? ∧ Expr.ofPlan plan = .ok (.subquery plan) := by
  obtain ⟨projections, sources, joins, filters, groups, havings, orderings, offset, limit, distinct⟩ := plan
  have built : ofPlan ⟨projections, sources, joins, filters, groups, havings, orderings, offset, limit, distinct⟩ =
      .ok (.subquery ⟨projections, sources, joins, filters, groups, havings, orderings, offset, limit, distinct⟩) :=
    Except.bind_eq_ok.mpr ⟨type?, projects, rfl⟩
  rcases projections with _ | ⟨⟨e⟩ | ⟨a⟩, _ | ⟨second, rest⟩⟩
  · cases projects
  · cases projects
    exact ⟨rfl, built⟩
  · cases projects
  · cases projects
  · cases projects

namespace TypedExpr

variable {type : HostType}

theorem fits_of_scalar {plan : Plan} {e : TypedExpr type} (run : scalar type plan = .ok e) :
    e.expr.Fits type ∧ e.expr.Checked := by
  obtain ⟨type?, projects, run⟩ := Except.bind_eq_ok.mp run
  obtain ⟨own, built⟩ := Expr.dataType_subquery projects
  cases type? with
  | none =>
    cases run
    exact ⟨fun actual known => (by cases own.symm.trans known), .subquery built⟩
  | some actual =>
    dsimp only at run
    split at run
    case isTrue comparable =>
      cases run
      refine ⟨fun actual' known => ?_, .subquery built⟩
      cases own.symm.trans known
      exact comparable
    case isFalse => cases run

/-- An expression that a program reads as a type has a type that compares with it, or none, and its subqueries are
scalar. -/
theorem Reachable.fits {e : TypedExpr type} (reachable : e.Reachable) : e.expr.Fits type ∧ e.expr.Checked := by
  induction reachable with
  | column found =>
    obtain ⟨path, -, declared⟩ := Except.bind_eq_ok.mp found
    obtain ⟨same, fits⟩ := fits_of_declared declared
    rw [same]
    exact ⟨fits, .path path⟩
  | navigated found =>
    obtain ⟨path, -, declared⟩ := Except.bind_eq_ok.mp found
    obtain ⟨same, fits⟩ := fits_of_declared declared
    rw [same]
    exact ⟨fits, .path path⟩
  | literal converted =>
    obtain ⟨v, read, run⟩ := Except.bind_eq_ok.mp converted
    cases run
    refine ⟨fun own known => ?_, .literal v⟩
    cases (HostType.dataType_of_convert read).symm.trans known
    exact DataType.comparable_refl _
  | declared checked exact =>
    obtain ⟨same, fits⟩ := fits_of_declared exact
    rw [same]
    exact ⟨fits, checked⟩
  | scalar fits => exact fits_of_scalar fits
  | rows a => exact ⟨fun own known => by cases known; rfl, .aggregate _ _ (.path _)⟩
  | count reachable distinct ih => exact ⟨fun own known => by cases known; rfl, .aggregate _ _ ih.2⟩
  | max reachable ih => exact ⟨ih.1, .aggregate _ _ ih.2⟩
  | min reachable ih => exact ⟨ih.1, .aggregate _ _ ih.2⟩
  | avg reachable numeric ih => exact ⟨fun own known => by cases known; rfl, .aggregate _ _ ih.2⟩
  | sum reachable numeric ih => exact ⟨ih.1, .aggregate _ _ ih.2⟩

end TypedExpr

theorem Operand.Reachable.fits {type : HostType} {o : Operand type} (reachable : o.Reachable) : o.toExpr.Fits type := by
  cases o with
  | expr e => exact (TypedExpr.Reachable.fits reachable).1
  | literal v admitted => exact (HostType.fits_of_admits admitted).1

/-- Two expressions read as one type never disagree in their types. -/
theorem checkTypes_of_fits {type : HostType} {left right : Option DataType} (operation : String)
    (leftFits : ∀ own, left = some own → own.comparable type.dataType)
    (rightFits : ∀ own, right = some own → own.comparable type.dataType) : checkTypes operation left right = .ok () := by
  cases left with
  | none => rfl
  | some a =>
    cases right with
    | none => rfl
    | some b => exact if_pos (DataType.comparable_of_common (leftFits a rfl) (rightFits b rfl))

/-- Of two expressions read as one type, only null is refused. -/
theorem checkOperands_of_fits {type : HostType} {left right : Expr} (operation : String) (leftFits : left.Fits type)
    (rightFits : right.Fits type) :
    checkOperands operation left right =
      if left.isNullLiteral || right.isNullLiteral then .error (.invalidArgument (.nullOperand operation))
      else .ok () := by
  rw [checkOperands, checkTypes_of_fits operation leftFits rightFits]

theorem forM_checkOperands_of_fits {type : HostType} {e : Expr} {values : List Expr} (operation : String)
    (fits : e.Fits type) (valuesFit : ∀ v ∈ values, v.Fits type) :
    values.forM (checkOperands operation e) =
      if values.any fun v => e.isNullLiteral || v.isNullLiteral then
        .error (.invalidArgument (.nullOperand operation))
      else .ok () := by
  induction values with
  | nil => rfl
  | cons v rest ih =>
    rw [List.forM_eq_forM, List.forM_cons, checkOperands_of_fits operation fits (valuesFit v List.mem_cons_self),
      List.any_cons]
    cases null : e.isNullLiteral || v.isNullLiteral with
    | true => rfl
    | false => exact ih fun v inside => valuesFit v (List.mem_cons_of_mem _ inside)

/-- A checked subquery projects one scalar. -/
theorem Expr.Checked.scalarType {plan : Plan} (checked : (Expr.subquery plan).Checked) :
    plan.scalarType = .ok (Expr.subquery plan).dataType? := by
  generalize own : Expr.subquery plan = e at checked
  cases checked with
  | path p => cases own
  | literal v => cases own
  | aggregate f distinct inner => cases own
  | subquery built =>
    obtain ⟨type?, projects, same⟩ := Except.bind_eq_ok.mp built
    cases same
    cases own
    rw [projects, (dataType_subquery projects).1]

namespace TypedExpr

variable {type : HostType} {e : TypedExpr type}

theorem compare_checked (reachable : e.Reachable) (op : CompareOp) {o : Operand type} (operand : o.Reachable) :
    e.expr.compare op o.toExpr =
      if e.expr.isNullLiteral || o.toExpr.isNullLiteral then .error (.invalidArgument (.nullOperand op.name))
      else .ok (e.compare op o) := by
  rw [Expr.compare, checkOperands_of_fits op.name reachable.fits.1 operand.fits]
  cases e.expr.isNullLiteral || o.toExpr.isNullLiteral with
  | true => rfl
  | false => rfl

theorem between_checked (reachable : e.Reachable) {low high : Operand type} (lowReachable : low.Reachable)
    (highReachable : high.Reachable) :
    e.expr.between low.toExpr high.toExpr =
      if e.expr.isNullLiteral || low.toExpr.isNullLiteral || high.toExpr.isNullLiteral then
        .error (.invalidArgument (.nullOperand "between"))
      else .ok (e.between low high) := by
  rw [Expr.between, checkOperands_of_fits "between" reachable.fits.1 lowReachable.fits,
    checkOperands_of_fits "between" reachable.fits.1 highReachable.fits]
  cases e.expr.isNullLiteral with
  | true => rfl
  | false =>
    cases low.toExpr.isNullLiteral with
    | true => rfl
    | false =>
      cases high.toExpr.isNullLiteral with
      | true => rfl
      | false => rfl

theorem inValues_checked (reachable : e.Reachable) {values : List Expr} (fits : ∀ v ∈ values, v.Fits type)
    (negated : Bool) :
    e.expr.inValues values negated =
      if values.any fun v => e.expr.isNullLiteral || v.isNullLiteral then
        .error (.invalidArgument (.nullOperand "in"))
      else .ok (.inValues e.expr values negated) := by
  rw [Expr.inValues, forM_checkOperands_of_fits "in" reachable.fits.1 fits]
  cases values.any fun v => e.expr.isNullLiteral || v.isNullLiteral with
  | true => rfl
  | false => rfl

theorem isIn_checked (reachable : e.Reachable) {list : OperandList type} (listed : list.Reachable) (negated : Bool) :
    list.membership e.expr negated =
      if list.values.any fun v => e.expr.isNullLiteral || v.isNullLiteral then
        .error (.invalidArgument (.nullOperand "in"))
      else .ok (e.isIn list negated) := by
  cases list with
  | items operands =>
    refine inValues_checked reachable (fun v inside => ?_) negated
    obtain ⟨o, member, rfl⟩ := List.mem_map.mp inside
    exact (listed o member).fits
  | expr other =>
    obtain ⟨fits, checked⟩ := Reachable.fits listed
    obtain ⟨other⟩ := other
    have single : ∀ v ∈ [other], v.Fits type := fun v inside => List.mem_singleton.mp inside ▸ fits
    cases other with
    | path path => exact inValues_checked reachable single negated
    | literal v => exact inValues_checked reachable single negated
    | aggregate function argument distinct => exact inValues_checked reachable single negated
    | subquery plan =>
      rw [OperandList.membership, Expr.inPlan, checked.scalarType, Except.ok_bind,
        checkTypes_of_fits "in" reachable.fits.1 fits]
      rfl

/-- What a program reads as a type has a type that compares with it, or none. So the typed predicates are those that
the checked constructors build, which refuse null operands and nothing else. -/
theorem typed_operands_checked (reachable : e.Reachable) :
    (∀ own, e.expr.dataType? = some own → own.comparable type.dataType) ∧
    (∀ (op : CompareOp) (o : Operand type), o.Reachable → e.expr.compare op o.toExpr =
      if e.expr.isNullLiteral || o.toExpr.isNullLiteral then .error (.invalidArgument (.nullOperand op.name))
      else .ok (e.compare op o)) ∧
    (∀ low high : Operand type, low.Reachable → high.Reachable → e.expr.between low.toExpr high.toExpr =
      if e.expr.isNullLiteral || low.toExpr.isNullLiteral || high.toExpr.isNullLiteral then
        .error (.invalidArgument (.nullOperand "between"))
      else .ok (e.between low high)) ∧
    (∀ (list : OperandList type) (negated : Bool), list.Reachable → list.membership e.expr negated =
      if list.values.any fun v => e.expr.isNullLiteral || v.isNullLiteral then
        .error (.invalidArgument (.nullOperand "in"))
      else .ok (e.isIn list negated)) :=
  ⟨reachable.fits.1, fun op _ operand => compare_checked reachable op operand,
    fun _ _ low high => between_checked reachable low high,
    fun _ negated listed => isIn_checked reachable listed negated⟩

def rowCount : Plan := Plan.empty.select [.expr (.aggregate .count (.literal (.int 1)) false)]

/-- A count read as a double. -/
def countedRows : TypedExpr .double := ⟨.subquery rowCount⟩

theorem typed_operands_checked_countedRows :
    countedRows.Reachable ∧ countedRows.expr.dataType? = some .integer ∧
      (DataType.integer.comparable HostType.double.dataType) ∧
      countedRows.expr.compare .ge (.literal (.int 3)) = .ok (countedRows.compare .ge (.literal (.int 3) rfl)) ∧
      countedRows.expr.between (.literal (.int 3)) (.literal .null) =
        .error (.invalidArgument (.nullOperand "between")) ∧
      (OperandList.expr countedRows).membership countedRows.expr true =
        .ok (countedRows.isIn (.expr countedRows) true) := by
  have reachable : countedRows.Reachable := @Reachable.scalar .double rowCount countedRows rfl
  have null : Reachable (⟨.literal .null⟩ : TypedExpr .double) := .declared (.literal .null) rfl
  obtain ⟨types, compares, between, lists⟩ := typed_operands_checked reachable
  exact ⟨reachable, rfl, types _ rfl, compares .ge (.literal (.int 3) rfl) trivial,
    between (.literal (.int 3) rfl) (.expr ⟨.literal .null⟩) trivial null, lists (.expr countedRows) true reachable⟩

end TypedExpr

end EntityMapper
