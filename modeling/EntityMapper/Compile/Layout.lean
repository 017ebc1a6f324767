import EntityMapper.Compile.Resolve

namespace EntityMapper

/-- What the columns of a projection are read as. -/
inductive ItemKind where
  | scalar (type : Option DataType)
  | entity (entity : Entity)
  deriving DecidableEq, Repr, Inhabited

def ItemKind.width : ItemKind → Nat
  | scalar _ => 1
  | entity e => e.columnCount

/-- A projection and its first column. -/
structure LayoutItem where
  projection : Projection
  offset : Nat
  kind : ItemKind

def LayoutItem.width (i : LayoutItem) : Nat := i.kind.width

/-- The columns of a fetched entity behind those of the select list. -/
structure FetchBinding extends FetchJoin where
  offset : Nat
  deriving DecidableEq, Repr, Inhabited

def FetchBinding.width (b : FetchBinding) : Nat := b.target.entity.columnCount

inductive Shape where
  | scalar
  | entity
  | tuple
  deriving DecidableEq, Repr, Inhabited

def Shape.name : Shape → String
  | scalar => "scalar"
  | entity => "entity"
  | tuple => "tuple"

/-- How the columns of a query's rows are put together again. -/
structure Layout where
  items : List LayoutItem
  fetches : List FetchBinding
  width : Nat
  deriving Inhabited

def Projection.kind : Projection → ItemKind
  | .expr e => .scalar e.dataType?
  | .entity a => .entity a.entity

namespace Layout

/-- Each item starts where the one before it ends. -/
def place (offset : Nat) : List Projection → List LayoutItem
  | [] => []
  | p :: rest => ⟨p, offset, p.kind⟩ :: place (offset + p.kind.width) rest

def bind (offset : Nat) : List FetchJoin → List FetchBinding
  | [] => []
  | f :: rest => ⟨f, offset⟩ :: bind (offset + f.target.entity.columnCount) rest

def visibleWidth (projections : List Projection) : Nat := (projections.map (·.kind.width)).foldr (· + ·) 0

def ofProjections (projections : List Projection) (fetches : List FetchJoin) : Layout :=
  { items := place 0 projections
    fetches := bind (visibleWidth projections) fetches
    width := visibleWidth projections + (fetches.map (·.target.entity.columnCount)).foldr (· + ·) 0 }

/-- One projection is a result of its own, several make a tuple. -/
def shape (l : Layout) : Shape :=
  match l.items with
  | [item] =>
    match item.kind with
    | .entity _ => .entity
    | .scalar _ => .scalar
  | _ => .tuple

end Layout

end EntityMapper
