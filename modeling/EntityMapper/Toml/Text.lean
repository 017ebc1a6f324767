import EntityMapper.Toml.Reader

namespace EntityMapper.Toml

open Reader

/-- Control characters other than the tab stand in no text and in no comment. -/
def isShown (c : Char) : Bool := c == '\t' || 0x20 ≤ c.toNat && c.toNat != 0x7f

def isBlank (c : Char) : Bool := c == ' ' || c == '\t'

def blanks : Reader Unit := do
  let _ ← run isBlank

def lineEnd : Reader (List Char) := (do char '\n'; pure ['\n']) <|> (do word "\r\n"; pure ['\r', '\n'])

def comment : Reader Unit := do
  char '#'
  let _ ← run isShown

/-- The value of a digit in bases up to sixteen. -/
def digitValue (c : Char) : Nat :=
  if c.isDigit then c.toNat - '0'.toNat else c.toLower.toNat - 'a'.toNat + 10

def isDigitOf (base : Nat) (c : Char) : Bool :=
  (c.isDigit || 'a' ≤ c.toLower && c.toLower ≤ 'f') && digitValue c < base

def numberOf (base : Nat) (digits : List Char) : Nat := digits.foldl (fun n c => base * n + digitValue c) 0

/-- A character by its number, which surrogates do not have. -/
def codePoint (width : Nat) : Reader Char := do
  let digits ← times width (one (isDigitOf 16))
  let code := numberOf 16 digits
  if code < 0xd800 || 0xdfff < code && code < 0x110000 then pure (Char.ofNat code) else failure

/-- The letters of the escapes that stand for one character each. -/
def escapes : List (Char × Char) :=
  [('b', '\x08'), ('t', '\t'), ('n', '\n'), ('f', '\x0c'), ('r', '\r'), ('e', '\x1b'), ('"', '"'), ('\\', '\\')]

/-- The letters of the escapes that give a character by its number, and how many digits the number has. -/
def numberedEscapes : List (Char × Nat) := [('x', 2), ('u', 4), ('U', 8)]

def escaped : Reader Char := do
  char '\\'
  let letter ← one fun _ => true
  match escapes.lookup letter, numberedEscapes.lookup letter with
  | some c, _ => pure c
  | none, some width => codePoint width
  | none, none => failure

def basicChar : Reader Char := escaped <|> one fun c => isShown c && c != '"' && c != '\\'

def literalChar : Reader Char := one fun c => isShown c && c != '\''

def quoted (quote : Char) (item : Reader Char) : Reader String := do
  char quote
  let inner ← many item
  char quote
  pure (String.ofList inner)

/-- Text on one line, in double quotes with escapes or in single quotes without any. -/
def lineText : Reader String := quoted '"' basicChar <|> quoted '\'' literalChar

/-- A backslash at the end of a line leaves out everything up to the next character that is not blank. -/
def continuation : Reader (List Char) := do
  char '\\'
  blanks
  let _ ← lineEnd
  let _ ← many ((do let _ ← one isBlank) <|> (do let _ ← lineEnd))
  pure []

/-- One or two quotes do not end a text over several lines. -/
def innerQuotes (quote : Char) : Reader (List Char) := do
  let quotes ← run (· == quote)
  if quotes.length = 1 ∨ quotes.length = 2 then pure quotes else failure

/-- The last three of up to five quotes end the text. -/
def lastQuotes (quote : Char) : Reader (List Char) := do
  let quotes ← run (· == quote)
  if 3 ≤ quotes.length ∧ quotes.length ≤ 5 then pure (quotes.drop 3) else failure

/-- Text over several lines. A line end right after the opening quotes does not belong to it. -/
def block (quote : Char) (item : Reader (List Char)) : Reader String := do
  let _ ← times 3 (char quote)
  let _ ← option lineEnd
  let inner ← many (innerQuotes quote <|> lineEnd <|> item)
  let last ← lastQuotes quote
  pure (String.ofList (inner.flatten ++ last))

def text : Reader String :=
  block '"' (continuation <|> List.singleton <$> basicChar) <|> block '\'' (List.singleton <$> literalChar) <|> lineText

end EntityMapper.Toml
