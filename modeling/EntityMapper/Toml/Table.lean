import EntityMapper.Toml.Moment
import EntityMapper.Double

namespace EntityMapper.Toml

/-- How a table came about: under a header of its own, inside the key of another header, through the dots of a key,
or in braces. -/
inductive Origin where
  | header
  | implied
  | dotted
  | braces
  deriving DecidableEq, Repr, Inhabited

/-- What a key stands for. Elements are the tables that one header has begun again and again. -/
inductive Value where
  | text (text : String)
  | integer (value : Int)
  | float (value : Double)
  | boolean (value : Bool)
  | moment (moment : Moment)
  | array (items : List Value)
  | table (origin : Origin) (entries : List (String × Value))
  | elements (tables : List (List (String × Value)))
  deriving Repr, Inhabited

abbrev Table := List (String × Value)

namespace Table

def replace (t : Table) (name : String) (value : Value) : Table :=
  t.map fun entry => if entry.1 == name then (name, value) else entry

/-- Changes the table that a key leads to, with the knowledge of its origin. Tables on the way are entered if their
origin admits it and made where they are missing; of elements the last is entered. -/
def enter (missing : Origin) (admits : Origin → Bool) (change : Origin → Table → Option Table) :
    Origin → List String → Table → Option Table
  | origin, [], t => change origin t
  | _, name :: rest, t =>
    match t.lookup name with
    | none => do
      let inner ← enter missing admits change missing rest []
      pure (t ++ [(name, .table missing inner)])
    | some (.table origin inner) =>
      if admits origin then do
        let changed ← enter missing admits change origin rest inner
        pure (t.replace name (.table origin changed))
      else none
    | some (.elements tables) => do
      let last ← tables.getLast?
      let changed ← enter missing admits change .header rest last
      pure (t.replace name (.elements (tables.dropLast ++ [changed])))
    | some _ => none

/-- The table of a header, which may lie in any table that is not in braces. -/
def enterHeader (change : Origin → Table → Option Table) (key : List String) (t : Table) : Option Table :=
  enter .implied (· != .braces) change .header key t

/-- A table may have a header of its own once, if no dots have made it. -/
def beginTable (name : String) (t : Table) : Option Table :=
  match t.lookup name with
  | none => some (t ++ [(name, .table .header [])])
  | some (.table .implied inner) => some (t.replace name (.table .header inner))
  | some _ => none

def beginElement (name : String) (t : Table) : Option Table :=
  match t.lookup name with
  | none => some (t ++ [(name, .elements [[]])])
  | some (.elements tables) => some (t.replace name (.elements (tables ++ [[]])))
  | some _ => none

def addNew (name : String) (value : Value) (t : Table) : Option Table :=
  match t.lookup name with
  | none => some (t ++ [(name, value)])
  | some _ => none

/-- Adds a value. The dots of a key lead through tables without a header, and the last of them was made by dots. -/
def add (key : List String) (value : Value) (t : Table) : Option Table := do
  let name ← key.getLast?
  let place (origin : Origin) (inner : Table) : Option Table :=
    if origin == .dotted || key.length == 1 then inner.addNew name value else none
  enter .dotted (· matches .implied | .dotted) place .header key.dropLast t

/-- The table of entries that stand in braces. -/
def ofPairs (pairs : List (List String × Value)) : Option Table :=
  pairs.foldlM (fun t (key, value) => t.add key value) []

end Table

end EntityMapper.Toml
