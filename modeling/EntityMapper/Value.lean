import EntityMapper.DataType
import EntityMapper.Double.Decimal

namespace EntityMapper

/-- A single value of the store. -/
inductive Value where
  | null
  | bool (b : Bool)
  | int (i : Int64)
  | float (d : Double)
  | text (s : String)
  deriving DecidableEq, Repr, Inhabited

namespace Value

def isNull : Value → Bool
  | null => true
  | _ => false

/-- Null has no type and is compatible with every type. -/
def dataType? : Value → Option DataType
  | null => none
  | bool _ => some .bool
  | int _ => some .integer
  | float _ => some .float
  | text _ => some .text

/-- Values are compared by content, numbers of one type as numbers: what is not a number differs from itself. -/
def equal : Value → Value → Bool
  | null, null => true
  | bool a, bool b => a == b
  | int a, int b => a == b
  | float a, float b => a == b
  | text a, text b => a == b
  | _, _ => false

instance : BEq Value := ⟨equal⟩

def int? : Value → Option Int64
  | int i => some i
  | _ => none

def text? : Value → Option String
  | text s => some s
  | _ => none

/-- How a value is shown inside messages. -/
def shown : Value → String
  | null => "NULL"
  | bool b => if b then "true" else "false"
  | int i => toString i.toInt
  | float d => d.text
  | text s => s!"'{s}'"

end Value

end EntityMapper
