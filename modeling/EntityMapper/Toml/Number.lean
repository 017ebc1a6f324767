import EntityMapper.Double.Decimal
import EntityMapper.Toml.Text

namespace EntityMapper.Toml

open Reader

/-- Digits with at most one underscore between two of them. -/
def digits (base : Nat) : Reader (List Char) := do
  let first ← one (isDigitOf base)
  let others ← many do
    let _ ← option (char '_')
    one (isDigitOf base)
  pure (first :: others)

/-- Decimal digits without a superfluous zero in front. -/
def wholeDigits : Reader (List Char) := do
  let found ← digits 10
  if found.head? = some '0' ∧ found.length ≠ 1 then failure else pure found

/-- Whether a number is negative. -/
def sign : Reader Bool := (do char '-'; pure true) <|> (do char '+'; pure false) <|> pure false

def signed (negative : Bool) (n : Int) : Int := if negative then -n else n

def basedInteger (mark : Char) (base : Nat) : Reader Int := do
  char '0'
  char mark
  let found ← digits base
  pure (numberOf base found)

def decimalInteger : Reader Int := do
  let negative ← sign
  let found ← wholeDigits
  pure (signed negative (numberOf 10 found))

/-- An integer that 128 bits can hold, with a sign or without one. -/
def integer : Reader Int := do
  let n ← basedInteger 'x' 16 <|> basedInteger 'o' 8 <|> basedInteger 'b' 2 <|> decimalInteger
  if -(Nat.pow 2 127) ≤ n ∧ n < Nat.pow 2 128 then pure n else failure

def fractionDigits : Reader (List Char) := do
  char '.'
  digits 10

def exponent : Reader Int := do
  char 'e' <|> char 'E'
  let negative ← sign
  let found ← digits 10
  pure (signed negative (numberOf 10 found))

/-- A number with a fraction, an exponent or both, within the range of finite numbers. -/
def decimal : Reader Double := do
  let negative ← sign
  let whole ← wholeDigits
  let fraction ← option fractionDigits
  let scale ← option exponent
  if fraction.isNone && scale.isNone then failure
  else
    let places := fraction.getD []
    let size : Double.Decimal := ⟨numberOf 10 (whole ++ places), scale.getD 0 - places.length⟩
    match size.toDouble? with
    | some d => pure (if negative then d.opposite else d)
    | none => failure

def special : Reader Double := do
  let negative ← sign
  let d ← (do word "inf"; pure Double.infinity) <|> (do word "nan"; pure Double.nan)
  pure (if negative then d.opposite else d)

def float : Reader Double := decimal <|> special

end EntityMapper.Toml
