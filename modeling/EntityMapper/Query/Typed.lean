import EntityMapper.Query.Predicate
import EntityMapper.Conversion

namespace EntityMapper

/-- Literals that a program may compare with an expression of a type as they are. Integers stand for numbers. -/
def HostType.admits : HostType → Value → Bool
  | .int32, .int i => fitsInt32 i
  | .int64, .int _ => true
  | .double, .float _ => true
  | .double, .int _ => true
  | .text, .text _ => true
  | .bool, .bool _ => true
  | _, _ => false

/-- An expression that a program reads as a type. -/
structure TypedExpr (type : HostType) where
  expr : Expr
  deriving Inhabited

/-- The other side of a typed comparison. -/
inductive Operand (type : HostType) where
  | expr (expr : TypedExpr type)
  | literal (value : Value) (admitted : type.admits value)

/-- The list of a typed membership: operands, or an expression of the same type. -/
inductive OperandList (type : HostType) where
  | items (items : List (Operand type))
  | expr (expr : TypedExpr type)

namespace Operand

variable {type : HostType}

def toExpr : Operand type → Expr
  | .expr e => e.expr
  | .literal v _ => .literal v

/-- A literal operand, refused when the type has no such literal. -/
def ofValue (type : HostType) (value : Value) : Except Error (Operand type) :=
  if admitted : type.admits value then .ok (.literal value admitted) else .error (.decode type.name value.shown)

end Operand

namespace TypedExpr

variable {type : HostType}

/-- An expression of known type is declared as exactly that type. -/
def declared (type : HostType) (expr : Expr) : Except Error (TypedExpr type) :=
  match expr.dataType? with
  | some actual =>
    if actual = type.dataType then .ok ⟨expr⟩
    else .error (.typeMismatch "declared column type" type.dataType actual)
  | none => .ok ⟨expr⟩

/-- A value of the program's type as a literal. -/
def literal (type : HostType) (value : Value) : Except Error (TypedExpr type) := do
  let converted ← type.convert value
  .ok ⟨.literal converted⟩

/-- A plan as a scalar subquery whose type compares with the program's type. -/
def scalar (type : HostType) (plan : Plan) : Except Error (TypedExpr type) := do
  match ← plan.scalarType with
  | some actual =>
    if actual.comparable type.dataType then .ok ⟨.subquery plan⟩
    else .error (.typeMismatch "subquery" type.dataType actual)
  | none => .ok ⟨.subquery plan⟩

def count (e : TypedExpr type) (distinct : Bool) : TypedExpr .int64 := ⟨e.expr.count distinct⟩

def max (e : TypedExpr type) : TypedExpr type := ⟨e.expr.max⟩

def min (e : TypedExpr type) : TypedExpr type := ⟨e.expr.min⟩

/-- Only numbers have averages and sums. -/
def avg (e : TypedExpr type) (_ : type.dataType.isNumeric) : TypedExpr .double := ⟨.aggregate .avg e.expr false⟩

def sum (e : TypedExpr type) (_ : type.dataType.isNumeric) : TypedExpr type := ⟨.aggregate .sum e.expr false⟩

def compare (e : TypedExpr type) (op : CompareOp) (operand : Operand type) : Predicate :=
  .compare e.expr op operand.toExpr

def between (e : TypedExpr type) (low high : Operand type) : Predicate := .between e.expr low.toExpr high.toExpr

/-- Membership in a subquery is membership in its rows; any other expression is a list of one. -/
def isIn (e : TypedExpr type) (list : OperandList type) (negated : Bool) : Predicate :=
  match list with
  | .items items => .inValues e.expr (items.map Operand.toExpr) negated
  | .expr ⟨.subquery plan⟩ => .inPlan e.expr plan negated
  | .expr ⟨other⟩ => .inValues e.expr [other] negated

def isNull (e : TypedExpr type) (negated : Bool) : Predicate := .isNull e.expr negated

end TypedExpr

/-- A field of the entity under an alias, read as a type. -/
def Alias.column (type : HostType) (a : Alias) (name : String) : Except Error (TypedExpr type) := do
  let path ← a.field name
  TypedExpr.declared type (.path path)

/-- A field of an associated entity, read as a type. -/
def AssociationPath.column (type : HostType) (p : AssociationPath) (name : String) : Except Error (TypedExpr type) := do
  let path ← p.field name
  TypedExpr.declared type (.path path)

end EntityMapper
