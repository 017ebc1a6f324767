import EntityMapper.Double

namespace EntityMapper.Double

/-- A decimal number `digits * 10 ^ exponent`. -/
structure Decimal where
  digits : Nat
  exponent : Int
  deriving DecidableEq, Repr

/-- Four times the size of a number, so that the bounds of its rounding interval are whole. -/
def quarters (d : Double) : Nat := 4 * d.units

/-- Reals between the bounds round to the number. Below a power of two the lower neighbour is twice as close. -/
def lowerBound (d : Double) : Nat :=
  d.quarters - if d.fraction = 0 ∧ 0 < d.scale then Nat.pow 2 d.scale else 2 * Nat.pow 2 d.scale

def upperBound (d : Double) : Nat := d.quarters + 2 * Nat.pow 2 d.scale

/-- Whether a real, given in quarters of the smallest positive number, rounds to the number: the bounds themselves do
when the significand is even. -/
def roundsTo (d : Double) (numerator denominator : Nat) : Bool :=
  if d.significand % 2 = 0 then
    d.lowerBound * denominator ≤ numerator && numerator ≤ d.upperBound * denominator
  else
    d.lowerBound * denominator < numerator && numerator < d.upperBound * denominator

/-- The multiple of `10 ^ exponent` nearest to a number among those that round to it, the larger one of two that are
equally near. -/
def onGrid (d : Double) (exponent : Int) : Option Decimal :=
  let step := 4 * unitsPerOne * Nat.pow 10 exponent.toNat
  let refinement := Nat.pow 10 (-exponent).toNat
  let size := d.quarters * refinement
  let below := size / step
  let above := if size % step = 0 then below else below + 1
  let hits (n : Nat) : Bool := d.roundsTo (n * step) refinement
  if hits above && (!hits below || above * step - size ≤ size - below * step) then some ⟨above, exponent⟩
  else if hits below then some ⟨below, exponent⟩
  else none

/-- The coarsest decimal grid with a point that reads back as the number, so the fewest digits that do. -/
def shortest (d : Double) : Decimal :=
  ((List.range 634).findSome? fun (n : Nat) => d.onGrid (309 - (n : Int))).getD ⟨0, 0⟩

/-- The nearest finite number to a decimal number, if there is one. A size beyond all bounds is not computed. -/
def Decimal.toDouble? (n : Decimal) : Option Double :=
  let magnitude := (Nat.toDigits 10 n.digits).length + n.exponent
  if n.digits = 0 ∨ magnitude < -400 then some ⟨0⟩
  else if 400 < magnitude then none
  else nearest? (n.digits * Nat.pow 10 n.exponent.toNat) (Nat.pow 10 (-n.exponent).toNat)

/-- Positional notation without an exponent, and without a point where no fraction follows it. -/
def Decimal.text (n : Decimal) : String :=
  let shown := Nat.toDigits 10 n.digits
  let places := (-n.exponent).toNat
  if places = 0 then String.ofList (shown ++ List.replicate n.exponent.toNat '0')
  else if places < shown.length then
    String.ofList (shown.take (shown.length - places) ++ '.' :: shown.drop (shown.length - places))
  else String.ofList ('0' :: '.' :: (List.replicate (places - shown.length) '0' ++ shown))

/-- The text of a number: the fewest decimal digits that read back as it. -/
def text (d : Double) : String :=
  if d.isNaN then "NaN"
  else
    let size := if !d.isFinite then "inf" else if d.isZero then "0" else d.shortest.text
    if d.isNegative then "-" ++ size else size

end EntityMapper.Double
