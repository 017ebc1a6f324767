import EntityMapper.Toml.Number
import EntityMapper.Toml.Table

namespace EntityMapper.Toml

open Reader

/-- A line that says something: a value under a key, or a header. -/
inductive Line where
  | pair (key : List String) (value : Value)
  | table (key : List String)
  | element (key : List String)
  deriving Repr, Inhabited

def isKeyChar (c : Char) : Bool := c.isAlphanum || c == '_' || c == '-'

def bareKey : Reader String := do
  let first ← one isKeyChar
  let others ← run isKeyChar
  pure (String.ofList (first :: others))

def keyPart : Reader String := bareKey <|> lineText

/-- How deep arrays and tables in braces may nest, and how many parts a key may have. -/
def depthLimit : Nat := 80

/-- The parts of a key, with points between them, on one line. -/
def key : Reader (List String) := do
  let first ← keyPart
  let others ← many do
    blanks
    char '.'
    blanks
    keyPart
  let parts := first :: others
  if parts.length ≤ depthLimit then pure parts else failure

def boolean : Reader Bool := (do word "true"; pure true) <|> (do word "false"; pure false)

/-- A value without parts. What starts like a moment or a number with a fraction also starts like an integer. -/
def plainValue : Reader Value :=
  Value.text <$> text <|> Value.boolean <$> boolean <|> Value.moment <$> moment <|> Value.float <$> float <|>
    Value.integer <$> integer

/-- What may stand between the parts of an array or of a table in braces. -/
def gap : Reader Unit := do
  let _ ← many ((do let _ ← one isBlank) <|> (do let _ ← lineEnd) <|> comment)

def spaced {α : Type} (item : Reader α) : Reader α := do
  let a ← item
  gap
  pure a

/-- Items with commas between them, and perhaps one more after the last. -/
def items {α : Type} (item : Reader α) : Reader (List α) := do
  let first ← spaced item
  let others ← many do
    char ','
    gap
    spaced item
  let _ ← option (char ',')
  gap
  pure (first :: others)

/-- What stands in brackets or braces, which may be nothing. -/
def enclosed {α : Type} (opening closing : Char) (item : Reader α) : Reader (List α) := do
  char opening
  gap
  let found ← items item <|> pure []
  char closing
  pure found

def array (value : Reader Value) : Reader Value := Value.array <$> enclosed '[' ']' value

/-- A key and its value, with space of a kind around the equals sign. -/
def pair (space : Reader Unit) (value : Reader Value) : Reader (List String × Value) := do
  let k ← key
  space
  char '='
  space
  let v ← value
  pure (k, v)

/-- A table in braces, which may go over several lines like an array. -/
def bracedTable (value : Reader Value) : Reader Value := do
  let found ← enclosed '\x7b' '\x7d' (pair gap value)
  match Table.ofPairs found with
  | some t => pure (.table .braces t)
  | none => failure

/-- A value whose arrays and tables nest up to a depth. -/
def value : Nat → Reader Value
  | 0 => plainValue
  | depth + 1 => array (value depth) <|> bracedTable (value depth) <|> plainValue

def spacedKey : Reader (List String) := do
  blanks
  let k ← key
  blanks
  pure k

def elementHeader : Reader Line := do
  word "[["
  let k ← spacedKey
  word "]]"
  pure (.element k)

def tableHeader : Reader Line := do
  char '['
  let k ← spacedKey
  char ']'
  pure (.table k)

def pairLine : Reader Line := do
  let (k, v) ← pair blanks (value depthLimit)
  pure (.pair k v)

/-- A line up to its end, with nothing or something on it. -/
def line : Reader (Option Line) := do
  blanks
  let found ← option (elementHeader <|> tableHeader <|> pairLine)
  blanks
  let _ ← option comment
  pure found

def endedLine : Reader (Option Line) := do
  let found ← line
  let _ ← lineEnd
  pure found

/-- The lines of a document, which a byte order mark may precede. -/
def lines : Reader (List Line) := do
  let _ ← option (char '\ufeff')
  let ended ← many endedLine
  let last ← line
  finish
  pure (ended ++ [last]).reduceOption

/-- A document while it is read: the table at its root, and the header that the next lines belong to. -/
structure Draft where
  root : Table
  header : List String

def Draft.add (d : Draft) : Line → Option Draft
  | .pair key value => do
    let root ← d.root.enterHeader (fun _ t => t.add key value) d.header
    pure { d with root }
  | .table key => do
    let name ← key.getLast?
    let root ← d.root.enterHeader (fun _ t => t.beginTable name) key.dropLast
    pure { root, header := key }
  | .element key => do
    let name ← key.getLast?
    let root ← d.root.enterHeader (fun _ t => t.beginElement name) key.dropLast
    pure { root, header := key }

/-- The table that a document describes, unless its text or its structure is broken. -/
def Table.ofText (s : String) : Option Table := do
  let (found, _) ← lines s.toList
  let d ← found.foldlM Draft.add ⟨[], []⟩
  pure d.root

end EntityMapper.Toml
