namespace EntityMapper.Toml

/-- Takes something off the front of a text, or nothing where the text does not start with it. -/
abbrev Reader := StateT (List Char) Option

namespace Reader

def one (kind : Char → Bool) : Reader Char := fun
  | [] => none
  | c :: rest => if kind c then some (c, rest) else none

def char (c : Char) : Reader Unit := do
  let _ ← one (· == c)

def word (w : String) : Reader Unit := w.toList.forM char

/-- The longest run of characters of a kind, which may be empty. -/
def run (kind : Char → Bool) : Reader (List Char) := fun s => some (s.takeWhile kind, s.dropWhile kind)

def option {α : Type} (r : Reader α) : Reader (Option α) := some <$> r <|> pure none

def times {α : Type} (n : Nat) (r : Reader α) : Reader (List α) := (List.replicate n ()).mapM fun _ => r

/-- Reads as often as the text becomes shorter by it. -/
def repeated {α : Type} (r : Reader α) (s : List Char) : List α × List Char :=
  match r s with
  | none => ([], s)
  | some (a, rest) =>
    if rest.length < s.length then
      let (others, last) := repeated r rest
      (a :: others, last)
    else ([], s)
termination_by s.length

def many {α : Type} (r : Reader α) : Reader (List α) := fun s => some (repeated r s)

/-- The text ends here. -/
def finish : Reader Unit := fun s => if s.isEmpty then some ((), []) else none

end Reader

end EntityMapper.Toml
