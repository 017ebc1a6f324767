import EntityMapper.Sql.Dialect
import EntityMapper.Value

namespace EntityMapper

/-- SQL text and the values of its placeholders in the order of the text. -/
structure Statement where
  sql : String
  params : List Value
  deriving DecidableEq, Repr, Inhabited

/-- A statement being written. -/
structure Writer where
  sql : String
  params : List Value
  deriving DecidableEq, Repr, Inhabited

namespace Writer

def empty : Writer := ⟨"", []⟩

def text (w : Writer) (s : String) : Writer := { w with sql := w.sql ++ s }

/-- A space, unless nothing stands before it, or a space or an opening parenthesis does. -/
def space (w : Writer) : Writer :=
  match w.sql.back? with
  | none | some ' ' | some '(' => w
  | some _ => w.text " "

def comma (w : Writer) : Writer := w.text ", "

def keyword (w : Writer) (word : String) : Writer := w.space.text word

def identifier (d : Dialect) (w : Writer) (name : String) : Writer := w.text (d.quoted name)

/-- The index of the next placeholder. -/
def nextIndex (w : Writer) : Nat := w.params.length + 1

/-- A placeholder for a value and its index. Null is written out and takes no placeholder. -/
def value (d : Dialect) (w : Writer) : Value → Writer × Option Nat
  | .null => (w.text "NULL", none)
  | v => (⟨w.sql ++ d.placeholder w.nextIndex, w.params ++ [v]⟩, some w.nextIndex)

/-- Items with a separator between them. -/
def separated {α : Type} (separator : String) (write : Writer → α → Writer) (w : Writer) : List α → Writer
  | [] => w
  | first :: rest => rest.foldl (fun w item => write (w.text separator) item) (write w first)

def finish (w : Writer) : Statement := ⟨w.sql, w.params⟩

end Writer

/-- The parts of a statement that do not depend on what stands before them. -/
inductive Token where
  | space
  | word (text : String)
  | symbol (text : String)
  | identifier (name : String)
  | value (value : Value)
  deriving DecidableEq, Repr, Inhabited

def Token.write (d : Dialect) (w : Writer) : Token → Writer
  | space => w.space
  | word s => w.text s
  | symbol s => w.text s
  | identifier name => w.identifier d name
  | value v => (w.value d v).1

/-- Tokens written one after the other. -/
def Writer.tokens (d : Dialect) (w : Writer) (ts : List Token) : Writer := ts.foldl (Token.write d) w

/-- Words, each set off from what stands before it. -/
def words : List String → List Token := List.flatMap fun s => [.space, .word s]

/-- Token lists with a separating token list between them. -/
def joined (separator : List Token) : List (List Token) → List Token := List.intercalate separator

/-- A paging bound as a value, the largest integer for bounds beyond it. -/
def boundValue (n : Nat) : Value := .int (Int64.ofNat (min n (Nat.pow 2 63 - 1)))

def boundTokens (keywords : List String) (n : Nat) : List Token := words keywords ++ [.space, .value (boundValue n)]

/-- The paging clause. Two dialects have no offset without a limit and get a limit that lets every row pass. -/
def pagingTokens (d : Dialect) (limit offset : Option Nat) : List Token :=
  match d, limit, offset with
  | .sqlite, none, some n => boundTokens ["LIMIT", "-1", "OFFSET"] n
  | .mysql, none, some n => boundTokens ["LIMIT", "18446744073709551615", "OFFSET"] n
  | _, _, _ => limit.elim [] (boundTokens ["LIMIT"]) ++ offset.elim [] (boundTokens ["OFFSET"])

def Writer.paging (d : Dialect) (w : Writer) (limit offset : Option Nat) : Writer :=
  w.tokens d (pagingTokens d limit offset)

def Statement.ofTokens (d : Dialect) (ts : List Token) : Statement := (Writer.empty.tokens d ts).finish

end EntityMapper
