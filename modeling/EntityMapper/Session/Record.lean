import EntityMapper.Query.Equality
import EntityMapper.Session.Instance

namespace EntityMapper

/-- One result of a row: a value, or an entity, absent on the empty side of a left join. -/
inductive Cell where
  | value (value : Value)
  | entity (instance? : Option Ref)
  deriving DecidableEq, Repr, Inhabited

/-- Several results of one row with the projections they come from. -/
structure Tuple where
  keys : List Projection
  cells : List Cell

inductive Record where
  | cell (cell : Cell)
  | tuple (tuple : Tuple)

namespace Record

def kind : Record → String
  | cell (.value _) => "value"
  | cell (.entity _) => "entity"
  | tuple _ => "tuple"

/-- Rows of the same cells are one distinct row: values are compared by content, floating-point numbers by their bits,
entities by instance. -/
def distinctKey : Record → List Cell
  | cell c => [c]
  | tuple t => t.cells

def mismatch {α : Type} (expected : String) (r : Record) : Except Error α := .error (.decode expected r.kind)

def toValue : Record → Except Error Value
  | cell (.value v) => .ok v
  | other => other.mismatch "value"

def toEntity? : Record → Except Error (Option Ref)
  | cell (.entity r) => .ok r
  | other => other.mismatch "entity"

def toEntity : Record → Except Error Ref
  | cell (.entity (some r)) => .ok r
  | cell (.entity none) => .error (.decode "entity" Value.null.shown)
  | other => other.mismatch "entity"

def toTuple : Record → Except Error Tuple
  | tuple t => .ok t
  | other => other.mismatch "tuple"

def toScalar (type : HostType) (r : Record) : Except Error Value := do
  let v ← r.toValue
  type.convert v

/-- A scalar, or nothing for null. -/
def toScalar? (type : HostType) (r : Record) : Except Error (Option Value) := do
  let v ← r.toValue
  if v.isNull then .ok none
  else do
    let converted ← type.convert v
    .ok (some converted)

/-- The first record of each distinct row. -/
def distinctFrom (seen : List (List Cell)) : List Record → List Record
  | [] => []
  | r :: rest =>
    if r.distinctKey ∈ seen then distinctFrom seen rest else r :: distinctFrom (r.distinctKey :: seen) rest

def distinct (records : List Record) : List Record := distinctFrom [] records

end Record

/-- What a caller takes records as. -/
inductive ResultType where
  | record
  | value
  | entity
  | optionalEntity
  | tuple
  | scalar (type : HostType)
  | optionalScalar (type : HostType)
  deriving DecidableEq, Repr, Inhabited

/-- A record taken as a type. -/
inductive Result where
  | record (record : Record)
  | value (value : Value)
  | entity (instance? : Option Ref)
  | tuple (tuple : Tuple)

def ResultType.decode (type : ResultType) (r : Record) : Except Error Result :=
  match type with
  | record => .ok (.record r)
  | value => .value <$> r.toValue
  | entity => (fun found => .entity (some found)) <$> r.toEntity
  | optionalEntity => .entity <$> r.toEntity?
  | tuple => .tuple <$> r.toTuple
  | scalar host => .value <$> r.toScalar host
  | optionalScalar host => (fun v => .value (v.getD .null)) <$> r.toScalar? host

/-- What an item of a tuple is addressed by. -/
inductive TupleKey where
  | position (position : Nat)
  | expr (expr : Expr)
  | entity (source : Alias)

namespace Tuple

def position (t : Tuple) : TupleKey → Except Error Nat
  | .position n =>
    if n < t.keys.length then .ok n else .error (.invalidArgument (.tuplePosition n t.keys.length))
  | .expr e =>
    match t.keys.findIdx? fun key => key.expr?.any (·.same e) with
    | some n => .ok n
    | none => .error (.invalidArgument .unprojectedExpr)
  | .entity a =>
    match t.keys.findIdx? fun key => key.source?.any (·.same a) with
    | some n => .ok n
    | none => .error (.invalidArgument (.unprojectedEntity a.name))

def get (t : Tuple) (key : TupleKey) : Except Error Record := do
  let n ← t.position key
  match t.cells[n]? with
  | some c => .ok (.cell c)
  | none => .error (.invalidArgument (.tupleItem n))

end Tuple

/-- A page of results with the number of rows on all pages. -/
structure Page (α : Type) where
  results : List α
  total : Nat
  offset : Option Nat
  limit : Option Nat

end EntityMapper
