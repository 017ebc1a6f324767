import EntityMapper.Error

namespace EntityMapper

/-- The two sides of an operation have comparable types, as far as they have any. -/
def checkTypes (operation : String) : Option DataType → Option DataType → Except Error Unit
  | some left, some right =>
    if left.comparable right then .ok () else .error (.typeMismatch operation left right)
  | _, _ => .ok ()

/-- The nearest 64-bit integer. -/
def clampedInt64 (i : Int) : Int64 := Int64.ofInt (max Int64.minValue.toInt (min Int64.maxValue.toInt i))

/-- The integer a whole number is read as. Numbers beyond the range of integers are read as its nearest end. -/
def Double.int64? (d : Double) : Option Int64 := d.wholeNumber?.map clampedInt64

/-- Values read from the store brought to a field's type: integers stand for booleans, whole numbers for integers, and
null for itself in every type. -/
def DataType.coerce (type : DataType) (value : Value) : Except Error Value :=
  let refused := Error.decode type.name value.shown
  match type, value with
  | _, .null => .ok .null
  | .integer, .int i => .ok (.int i)
  | .integer, .float d => d.int64?.elim (.error refused) fun i => .ok (.int i)
  | .integer, .bool b => .ok (.int (if b then 1 else 0))
  | .float, .float d => .ok (.float d)
  | .float, .int i => .ok (.float (.ofInt i.toInt))
  | .text, .text s => .ok (.text s)
  | .bool, .bool b => .ok (.bool b)
  | .bool, .int i => .ok (.bool (i != 0))
  | _, _ => .error refused

/-- An integer that fits in 32 bits. -/
def fitsInt32 (i : Int64) : Bool := Int32.minValue.toInt ≤ i.toInt && i.toInt ≤ Int32.maxValue.toInt

/-- Values decoded into a program's type, again as a value of the store. -/
def HostType.convert (type : HostType) (value : Value) : Except Error Value :=
  let refused := Error.decode type.name value.shown
  match type, value with
  | .bool, .bool b => .ok (.bool b)
  | .bool, .int i => .ok (.bool (i != 0))
  | .int64, .int i => .ok (.int i)
  | .int64, .float d => d.int64?.elim (.error refused) fun i => .ok (.int i)
  | .int32, .int i => if fitsInt32 i then .ok (.int i) else .error refused
  | .int32, .float d =>
    d.int64?.elim (.error refused) fun i => if fitsInt32 i then .ok (.int i) else .error refused
  | .double, .float d => .ok (.float d)
  | .double, .int i => .ok (.float (.ofInt i.toInt))
  | .text, .text s => .ok (.text s)
  | _, _ => .error refused

end EntityMapper
