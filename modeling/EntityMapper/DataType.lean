namespace EntityMapper

/-- The type of a field, a literal or an expression, apart from how a store or a program represents it. -/
inductive DataType where
  | integer
  | float
  | text
  | bool
  deriving DecidableEq, Repr, Inhabited

namespace DataType

def name : DataType → String
  | integer => "integer"
  | float => "float"
  | text => "text"
  | bool => "boolean"

def isNumeric : DataType → Bool
  | integer | float => true
  | text | bool => false

/-- Values of the two types may stand on the two sides of a comparison. The numeric types compare with each other. -/
def comparable (a b : DataType) : Bool := a == b || a.isNumeric && b.isNumeric

end DataType

/-- The types a program asks values to be decoded into. -/
inductive HostType where
  | int32
  | int64
  | double
  | text
  | bool
  deriving DecidableEq, Repr, Inhabited

namespace HostType

def name : HostType → String
  | int32 => "i32"
  | int64 => "i64"
  | double => "f64"
  | text => "String"
  | bool => "bool"

def dataType : HostType → DataType
  | int32 | int64 => .integer
  | double => .float
  | text => .text
  | bool => .bool

end HostType

end EntityMapper
