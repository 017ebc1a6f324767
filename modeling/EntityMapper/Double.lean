namespace EntityMapper

/-- A binary floating-point number of 64 bits, held as its bit pattern: a sign, an exponent field of eleven bits and
a fraction of fifty-two. -/
structure Double where
  bits : UInt64
  deriving DecidableEq, Repr, Inhabited

namespace Double

def isNegative (d : Double) : Bool := Nat.pow 2 63 ≤ d.bits.toNat

def exponentField (d : Double) : Nat := d.bits.toNat / Nat.pow 2 52 % Nat.pow 2 11

def fraction (d : Double) : Nat := d.bits.toNat % Nat.pow 2 52

/-- An exponent field of ones marks the infinities and what is not a number. -/
def isFinite (d : Double) : Bool := d.exponentField != 2047

def isNaN (d : Double) : Bool := !d.isFinite && d.fraction != 0

def isZero (d : Double) : Bool := d.exponentField == 0 && d.fraction == 0

/-- A finite number is its significand times a power of two, counted in the smallest positive number. -/
def significand (d : Double) : Nat := if d.exponentField = 0 then d.fraction else Nat.pow 2 52 + d.fraction

def scale (d : Double) : Nat := d.exponentField - 1

/-- The size of a finite number as a multiple of the smallest positive number. -/
def units (d : Double) : Nat := d.significand * Nat.pow 2 d.scale

/-- One, as a multiple of the smallest positive number. -/
def unitsPerOne : Nat := Nat.pow 2 1074

/-- What is not a number equals nothing, and the two zeros are equal. -/
def equal (a b : Double) : Bool :=
  !a.isNaN && !b.isNaN && (a.bits == b.bits || a.isZero && b.isZero)

instance : BEq Double := ⟨equal⟩

/-- The integer that a finite number without fractional part denotes. -/
def wholeNumber? (d : Double) : Option Int :=
  if d.isFinite && d.units % unitsPerOne == 0 then
    let size : Int := (d.units / unitsPerOne : Nat)
    some (if d.isNegative then -size else size)
  else none

/-- The quotient rounded to the nearest integer, a half to the even neighbour. -/
def roundedQuotient (n d : Nat) : Nat :=
  if d < 2 * (n % d) ∨ 2 * (n % d) = d ∧ n / d % 2 = 1 then n / d + 1 else n / d

/-- The nearest number to an integer that is small enough to have one, a tie to the even significand. A significand
that rounds up to the next power of two carries into the exponent field. -/
def ofInt (i : Int) : Double :=
  if i = 0 then ⟨0⟩
  else
    let size := i.natAbs
    let top := size.log2
    let rounded := if top ≤ 52 then size * Nat.pow 2 (52 - top) else roundedQuotient size (Nat.pow 2 (top - 52))
    let sign := if i < 0 then Nat.pow 2 63 else 0
    ⟨UInt64.ofNat (sign + (top + 1022) * Nat.pow 2 52 + rounded)⟩

/-- The nearest finite number to a quotient, a tie to the even significand; none beyond the largest. -/
def nearest? (n d : Nat) : Option Double :=
  let size := n * unitsPerOne
  let scale := (size / d).log2 - 52
  let pattern := scale * Nat.pow 2 52 + roundedQuotient size (d * Nat.pow 2 scale)
  if pattern < 2047 * Nat.pow 2 52 then some ⟨UInt64.ofNat pattern⟩ else none

/-- The number with the other sign. -/
def opposite (d : Double) : Double := ⟨d.bits ^^^ 0x8000000000000000⟩

def infinity : Double := ⟨0x7ff0000000000000⟩

/-- The one pattern that stands for what is not a number wherever a pattern has to be chosen. -/
def nan : Double := ⟨0x7ff8000000000000⟩

end Double

end EntityMapper
