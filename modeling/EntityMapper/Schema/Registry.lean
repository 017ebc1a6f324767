import EntityMapper.Schema.Definition

namespace EntityMapper

/-- Definitions are checked in order: each has a primary key, declares no member twice and has a name of its own. -/
def checkDefinitions (names : List String) : List Definition → Except Error Unit
  | [] => .ok ()
  | d :: rest =>
    match d.keyName? with
    | none => .error (.invalidArgument (.noPrimaryKey d.name))
    | some _ =>
      match firstRepeated? [] d.memberNames with
      | some member => .error (.invalidArgument (.repeatedMember d.name member))
      | none =>
        if d.name ∈ names then .error (.invalidArgument (.repeatedEntity d.name))
        else checkDefinitions (d.name :: names) rest

/-- The column of an owning association by name and target. -/
def Definition.joinColumn? (d : Definition) (name target : String) : Option String :=
  d.links.findSome? fun
    | .owning owningName owningTarget joinColumn =>
      if owningName = name ∧ owningTarget = target then some joinColumn else none
    | .inverse .. => none

/-- An owning association joins on the target's key, an inverse one on the column of the association it is mapped by,
which has to be an owning association of the target back to the declaring entity. -/
def Link.resolve (all : List Definition) (owner : Definition) (ownKey : Field) : Link → Except Error Association
  | .owning name target joinColumn =>
    match all.find? (·.name == target) with
    | none => .error (.unknownEntity target)
    | some found => do
      let targetKey ← found.keyField
      .ok { name, owner := owner.name, target, targetTable := found.table, cardinality := .one,
            ownerColumn := joinColumn, targetColumn := targetKey.column, mappedBy := none, keyType := targetKey.type }
  | .inverse name target mappedBy cardinality =>
    match all.find? (·.name == target) with
    | none => .error (.unknownEntity target)
    | some found =>
      match found.joinColumn? mappedBy owner.name with
      | none => .error (.unknownAssociation target mappedBy)
      | some joinColumn => .ok
        { name, owner := owner.name, target, targetTable := found.table, cardinality, ownerColumn := ownKey.column,
          targetColumn := joinColumn, mappedBy := some mappedBy, keyType := ownKey.type }

def Definition.resolve (all : List Definition) (d : Definition) : Except Error Entity := do
  let key ← d.key
  let associations ← d.links.mapM (·.resolve all d (d.fields.get key))
  .ok { name := d.name, table := d.table, fields := d.fields, key, associations }

/-- The described entities in the order of their registration. -/
structure Registry where
  entities : List Entity
  deriving DecidableEq, Repr, Inhabited

namespace Registry

/-- Definitions are checked as a whole before any association is resolved. -/
def build (definitions : List Definition) : Except Error Registry := do
  checkDefinitions [] definitions
  let entities ← definitions.mapM (·.resolve definitions)
  .ok ⟨entities⟩

def find? (r : Registry) (entity : String) : Option Entity := r.entities.find? (·.name == entity)

def describe (r : Registry) (entity : String) : Except Error Entity :=
  (r.find? entity).elim (.error (.unknownEntity entity)) .ok

def contains (r : Registry) (entity : String) : Bool := (r.find? entity).isSome

end Registry

end EntityMapper
