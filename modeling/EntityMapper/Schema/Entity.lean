import EntityMapper.Error

namespace EntityMapper

/-- A scalar field and the column that stores it. -/
structure Field where
  name : String
  column : String
  type : DataType
  deriving DecidableEq, Repr, Inhabited

inductive Cardinality where
  | one
  | many
  deriving DecidableEq, Repr, Inhabited

/-- A resolved association. Owner and target rows belong together when `ownerColumn` equals `targetColumn`. The owning
side stores the foreign key in `ownerColumn`; the inverse side names the owning association it is mapped by. -/
structure Association where
  name : String
  owner : String
  target : String
  targetTable : String
  cardinality : Cardinality
  ownerColumn : String
  targetColumn : String
  mappedBy : Option String
  keyType : DataType
  deriving DecidableEq, Repr, Inhabited

def Association.isOwning (a : Association) : Bool := a.mappedBy.isNone

/-- The description of an entity. One of its fields is the primary key. -/
structure Entity where
  name : String
  table : String
  fields : List Field
  key : Fin fields.length
  associations : List Association
  deriving DecidableEq, Repr

instance : Inhabited Entity := ⟨⟨"", "", [default], ⟨0, by decide⟩, []⟩⟩

namespace Entity

def primaryKey (e : Entity) : Field := e.fields[e.key]

def field? (e : Entity) (name : String) : Option Field := e.fields.find? (·.name == name)

def fieldIndex? (e : Entity) (name : String) : Option Nat := e.fields.findIdx? (·.name == name)

def association? (e : Entity) (name : String) : Option Association := e.associations.find? (·.name == name)

def associationIndex? (e : Entity) (name : String) : Option Nat := e.associations.findIdx? (·.name == name)

def field (e : Entity) (name : String) : Except Error Field :=
  (e.field? name).elim (.error (.unknownField e.name name)) .ok

def fieldIndex (e : Entity) (name : String) : Except Error Nat :=
  (e.fieldIndex? name).elim (.error (.unknownField e.name name)) .ok

def association (e : Entity) (name : String) : Except Error Association :=
  (e.association? name).elim (.error (.unknownAssociation e.name name)) .ok

def associationIndex (e : Entity) (name : String) : Except Error Nat :=
  (e.associationIndex? name).elim (.error (.unknownAssociation e.name name)) .ok

/-- Associations whose foreign keys are stored in the entity's own table. -/
def foreignKeys (e : Entity) : List Association := e.associations.filter (·.isOwning)

/-- The columns read for an instance: its fields, then its foreign keys. -/
def selectedColumns (e : Entity) : List String := e.fields.map (·.column) ++ e.foreignKeys.map (·.ownerColumn)

def columnCount (e : Entity) : Nat := e.fields.length + e.foreignKeys.length

/-- The position of an owning association's foreign key among the selected columns. -/
def foreignKeyOffset? (e : Entity) (association : String) : Option Nat :=
  (e.foreignKeys.findIdx? (·.name == association)).map (e.fields.length + ·)

theorem length_selectedColumns (e : Entity) : e.selectedColumns.length = e.columnCount := by
  simp [selectedColumns, columnCount]

end Entity

end EntityMapper
