import EntityMapper.Schema.Entity

namespace EntityMapper

/-- One declared member of an entity. -/
inductive Member where
  | id (name : String) (type : DataType)
  | field (name column : String) (type : DataType)
  | reference (name target joinColumn : String)
  | inverse (name target mappedBy : String) (cardinality : Cardinality)
  deriving DecidableEq, Repr

/-- A declared association before its target is looked up. -/
inductive Link where
  | owning (name target joinColumn : String)
  | inverse (name target mappedBy : String) (cardinality : Cardinality)
  deriving DecidableEq, Repr

def Link.name : Link → String
  | owning name .. | inverse name .. => name

namespace Member

/-- A key is stored in a column of its own name. -/
def field? : Member → Option Field
  | id name type => some ⟨name, name, type⟩
  | field name column type => some ⟨name, column, type⟩
  | _ => none

def link? : Member → Option Link
  | reference name target joinColumn => some (.owning name target joinColumn)
  | inverse name target mappedBy cardinality => some (.inverse name target mappedBy cardinality)
  | _ => none

def keyName? : Member → Option String
  | id name _ => some name
  | _ => none

end Member

/-- An entity as declared: its members in order. -/
structure Definition where
  name : String
  table : String
  members : List Member
  deriving DecidableEq, Repr

namespace Definition

def fields (d : Definition) : List Field := d.members.filterMap Member.field?

def links (d : Definition) : List Link := d.members.filterMap Member.link?

/-- The key declared last is the primary key. -/
def keyName? (d : Definition) : Option String := (d.members.filterMap Member.keyName?).getLast?

/-- The position of the primary key among the fields, looked up by its name. -/
def key (d : Definition) : Except Error (Fin d.fields.length) :=
  let name := d.keyName?.getD ""
  (d.fields.findFinIdx? (·.name == name)).elim (.error (.unknownField d.name name)) .ok

def keyField (d : Definition) : Except Error Field := d.key.map d.fields.get

/-- The names of fields, then of associations. -/
def memberNames (d : Definition) : List String := d.fields.map (·.name) ++ d.links.map (·.name)

end Definition

/-- The first item that stands in a list a second time, or that occurs in `seen`. -/
def firstRepeated? (seen : List String) : List String → Option String
  | [] => none
  | name :: rest => if name ∈ seen then some name else firstRepeated? (name :: seen) rest

end EntityMapper
