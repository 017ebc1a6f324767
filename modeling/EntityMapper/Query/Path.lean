import EntityMapper.Schema.Registry

namespace EntityMapper

/-- An entity under an alias: what paths start from, and a source, a join target or a projection of a query. -/
structure Alias where
  name : String
  entity : Entity
  deriving DecidableEq, Repr, Inhabited

/-- A path to a column from an alias through associations. -/
structure Path where
  root : String
  rootEntity : String
  hops : List Association
  field : String
  column : String
  type : DataType
  deriving DecidableEq, Repr, Inhabited

/-- The alias, the associations and the field, joined by points. -/
def Path.shown (p : Path) : String := String.intercalate "." (p.root :: p.hops.map (·.name) ++ [p.field])

/-- An association reached from an alias. -/
structure AssociationPath where
  owner : Alias
  leading : List Association
  association : Association
  target : Entity
  deriving DecidableEq, Repr, Inhabited

namespace AssociationPath

def hops (p : AssociationPath) : List Association := p.leading ++ [p.association]

/-- Continues from the associated entity. -/
def navigate (registry : Registry) (p : AssociationPath) (name : String) : Except Error AssociationPath := do
  let next ← p.target.association name
  let target ← registry.describe next.target
  .ok { owner := p.owner, leading := p.hops, association := next, target }

/-- A path to a field of the associated entity. The primary key behind an owning association is the foreign key that
the table before it stores, so the last association need not be joined for it. -/
def field (p : AssociationPath) (name : String) : Except Error Path := do
  let field ← p.target.field name
  if p.association.isOwning && field.name == p.target.primaryKey.name then
    .ok
      { root := p.owner.name, rootEntity := p.owner.entity.name, hops := p.leading,
        field := s!"{p.association.name}.{field.name}", column := p.association.ownerColumn, type := field.type }
  else
    .ok
      { root := p.owner.name, rootEntity := p.owner.entity.name, hops := p.hops, field := field.name,
        column := field.column, type := field.type }

end AssociationPath

/-- An alias of a registered entity. -/
def Registry.entityAs (registry : Registry) (entity name : String) : Except Error Alias := do
  let described ← registry.describe entity
  if name.isEmpty then .error (.invalidArgument .emptyAlias) else .ok ⟨name, described⟩

namespace Alias

/-- The same entity under another alias. -/
def renamed (a : Alias) (name : String) : Alias := ⟨name, a.entity⟩

/-- Aliases of one registry are the same when they name the same entity by the same word. -/
def same (a b : Alias) : Bool := a.name == b.name && a.entity.name == b.entity.name

def pathTo (a : Alias) (field : Field) : Path :=
  { root := a.name, rootEntity := a.entity.name, hops := [], field := field.name, column := field.column,
    type := field.type }

def field (a : Alias) (name : String) : Except Error Path := do
  let field ← a.entity.field name
  .ok (a.pathTo field)

/-- The path to the primary key. -/
def id (a : Alias) : Path := a.pathTo a.entity.primaryKey

def association (registry : Registry) (a : Alias) (name : String) : Except Error AssociationPath := do
  let association ← a.entity.association name
  let target ← registry.describe association.target
  .ok { owner := a, leading := [], association, target }

/-- Follows a first association and then the others. -/
def navigate (registry : Registry) (a : Alias) (first : String) (rest : List String) : Except Error AssociationPath := do
  let start ← a.association registry first
  rest.foldlM (·.navigate registry) start

/-- A dotted path: every segment but the last is an association, the last one a field. -/
def path (registry : Registry) (a : Alias) (dotted : String) : Except Error Path :=
  let segments := dotted.splitOn "."
  let field := segments.getLast?.getD ""
  match segments.dropLast with
  | [] => a.field field
  | first :: rest => do
    let association ← a.navigate registry first rest
    association.field field

/-- The foreign key of an owning association, as a path to the target's primary key. -/
def foreignKey (registry : Registry) (a : Alias) (association : String) : Except Error Path := do
  let found ← a.entity.association association
  if !found.isOwning then
    .error (.invalidArgument (.noForeignKey a.entity.name association))
  else do
    let target ← registry.describe found.target
    let reached ← a.association registry association
    reached.field target.primaryKey.name

end Alias

end EntityMapper
