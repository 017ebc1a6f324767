namespace EntityMapper

/-- The SQL of a family of stores. -/
inductive Dialect where
  | ansi
  | sqlite
  | postgres
  | mysql
  deriving DecidableEq, Repr, Inhabited

/-- Writes every quotation mark twice. -/
def doubled (mark : Char) : List Char → List Char
  | [] => []
  | c :: rest => if c = mark then mark :: mark :: doubled mark rest else c :: doubled mark rest

namespace Dialect

def name : Dialect → String
  | ansi => "ansi"
  | sqlite => "sqlite"
  | postgres => "postgres"
  | mysql => "mysql"

/-- The mark around identifiers: a backquote in one dialect, a double quotation mark in the others. -/
def quoteMark : Dialect → Char
  | mysql => '\x60'
  | _ => '"'

/-- An identifier in quotation marks, those inside it written twice. -/
def quoted (d : Dialect) (identifier : String) : String :=
  String.ofList (d.quoteMark :: doubled d.quoteMark identifier.toList ++ [d.quoteMark])

/-- What stands for the parameter of an index counted from one. -/
def placeholder : Dialect → Nat → String
  | postgres, index => s!"${index}"
  | _, _ => "?"

/-- The dialect has words for the place of nulls in an order. -/
def ordersNulls : Dialect → Bool
  | mysql => false
  | _ => true

/-- The dialect returns generated keys from an insert. -/
def returnsKeys : Dialect → Bool
  | mysql => false
  | _ => true

/-- What reads the key generated last, where an insert does not return it. -/
def lastKeyQuery? : Dialect → Option String
  | mysql => some "SELECT LAST_INSERT_ID()"
  | _ => none

end Dialect

end EntityMapper
