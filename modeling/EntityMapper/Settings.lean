import EntityMapper.Error
import EntityMapper.Text.Blank
import EntityMapper.Toml.Document

namespace EntityMapper

/-- How sessions are opened and what they do at their end. -/
structure Settings where
  databaseUrl : String
  maxConnections : UInt32
  echo : Bool
  flushOnCommit : Bool
  deriving DecidableEq, Repr

namespace Settings

def defaults : Settings := ⟨"sqlite::memory:", 5, false, true⟩

instance : Inhabited Settings := ⟨defaults⟩

/-- What a value is read as. -/
def textValue? : Toml.Value → Option String
  | .text s => some s
  | _ => none

def flagValue? : Toml.Value → Option Bool
  | .boolean b => some b
  | _ => none

def connectionsValue? : Toml.Value → Option UInt32
  | .integer n => if 0 ≤ n ∧ n < UInt32.size then some (UInt32.ofNat n.toNat) else none
  | _ => none

/-- The value of a key, or the one that stands in for it where the key is missing. -/
def keyed {α : Type} (t : Toml.Table) (key : String) (read : Toml.Value → Option α) (missing : α) : Option α :=
  (t.lookup key).elim (some missing) read

/-- Settings from a table. Missing keys keep their defaults, and keys that are no settings are ignored. -/
def ofTable? (t : Toml.Table) : Option Settings := do
  let databaseUrl ← keyed t "database_url" textValue? defaults.databaseUrl
  let maxConnections ← keyed t "max_connections" connectionsValue? defaults.maxConnections
  let echo ← keyed t "echo" flagValue? defaults.echo
  let flushOnCommit ← keyed t "flush_on_commit" flagValue? defaults.flushOnCommit
  pure { databaseUrl, maxConnections, echo, flushOnCommit }

/-- Settings from the text of a document. -/
def ofText (document : String) : Except Error Settings :=
  match Toml.Table.ofText document >>= ofTable? with
  | some s => .ok s
  | none => .error (.configuration .malformed)

/-- Words for a flag, in any case of their letters. No other letter has one of theirs as its small form, so the case
of ASCII letters is all that has to be ignored. -/
def flag? (word : String) : Option Bool :=
  let lower := word.toLower
  if lower ∈ ["true", "1", "yes", "on"] then some true
  else if lower ∈ ["false", "0", "no", "off"] then some false
  else none

/-- The value of a sequence of decimal digits that is not empty. -/
def digitsValue? (digits : List Char) : Option Nat :=
  if digits.isEmpty || !digits.all Char.isDigit then none
  else some (digits.foldl (fun n c => 10 * n + (c.toNat - '0'.toNat)) 0)

/-- A number of connections: digits, which a plus sign may precede, within 32 bits. -/
def connections? (word : String) : Option UInt32 :=
  let digits := match word.toList with
    | '+' :: rest => rest
    | all => all
  (digitsValue? digits).bind fun n => if n < UInt32.size then some (UInt32.ofNat n) else none

/-- Replaces the setting of a name. The case of the name does not matter, nor do blanks around the value; other names
change nothing. -/
def override (s : Settings) (name value : String) : Except Error Settings :=
  let key := name.toLower
  let value := trimmed value
  let asFlag (change : Bool → Settings) : Except Error Settings :=
    (flag? value).elim (.error (.configuration (.notFlag key value))) fun b => .ok (change b)
  if key = "database_url" then .ok { s with databaseUrl := value }
  else if key = "max_connections" then
    (connections? value).elim (.error (.configuration (.notNumber value))) fun n => .ok { s with maxConnections := n }
  else if key = "echo" then asFlag fun b => { s with echo := b }
  else if key = "flush_on_commit" then asFlag fun b => { s with flushOnCommit := b }
  else .ok s

/-- Overrides in order, up to the first that is refused. -/
def overrideAll (s : Settings) (overrides : List (String × String)) : Except Error Settings :=
  overrides.foldlM (fun s (name, value) => s.override name value) s

/-- No store is built in, so there is none for any address. -/
def connect (s : Settings) : Except Error Unit := .error (.configuration (.noBackend s.databaseUrl))

end Settings

end EntityMapper
