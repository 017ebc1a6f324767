import EntityMapper.Conversion
import EntityMapper.Proofs.Numbers.Rounding

namespace EntityMapper

namespace Double

theorem number_sub (d : Double) (i : ℤ) :
    d.number - i = ((d.signedUnits - i * unitsPerOne : ℤ) : ℚ) / unitsPerOne := by
  have nonzero : (unitsPerOne : ℚ) ≠ 0 := by exact_mod_cast unitsPerOne_pos.ne'
  rw [number, Int.cast_sub, Int.cast_mul, Int.cast_natCast, sub_div, mul_div_cancel_right₀ _ nonzero]

/-- No finite number is closer to an integer of 64 bits than the one that it is rounded to. -/
theorem number_ofInt_nearest {i : ℤ} (size : i.natAbs ≤ 2 ^ 63) (d : Double) :
    |(ofInt i).number - i| ≤ |d.number - i| := by
  have positive : (0 : ℚ) < unitsPerOne := by exact_mod_cast unitsPerOne_pos
  rw [number_sub, number_sub, abs_div, abs_div, div_le_div_iff_of_pos_right (abs_pos.mpr positive.ne'), ← Int.cast_abs,
    ← Int.cast_abs, Int.cast_le]
  exact ofInt_nearest size d

theorem isFinite_ofInt {i : ℤ} (size : i.natAbs ≤ 2 ^ 63) : (ofInt i).isFinite := by
  by_cases nonzero : i = 0
  · rw [nonzero]
    decide
  · exact (units_ofInt nonzero size).2.1

theorem number_eq_iff {d : Double} {k : ℤ} : d.number = k ↔ d.signedUnits = k * unitsPerOne := by
  have nonzero : (unitsPerOne : ℚ) ≠ 0 := by exact_mod_cast unitsPerOne_pos.ne'
  rw [number, div_eq_iff nonzero]
  exact_mod_cast Iff.rfl

/-- A finite number is read as the integer that it denotes. -/
theorem wholeNumber?_eq_some {d : Double} {k : ℤ} (finite : d.isFinite) : d.wholeNumber? = some k ↔ d.number = k := by
  have size := d.natAbs_signedUnits
  have positive := unitsPerOne_pos
  rw [number_eq_iff]
  unfold wholeNumber? signedUnits at *
  generalize unitsPerOne = ones at positive ⊢
  split
  case isTrue whole =>
    obtain ⟨q, multiple⟩ := Nat.dvd_of_mod_eq_zero (beq_iff_eq.mp (Bool.and_eq_true_iff.mp whole).2)
    have quotient : d.units / ones = q := by rw [multiple, Nat.mul_div_cancel_left _ positive]
    have nonzero : (ones : ℤ) ≠ 0 := by omega
    rw [quotient, multiple, Nat.cast_mul, mul_comm (ones : ℤ), Option.some_inj]
    split
    · rw [← neg_mul, mul_left_inj' nonzero]
    · rw [mul_left_inj' nonzero]
  case isFalse broken =>
    refine ⟨fun run => (nomatch run), fun same => absurd ?_ broken⟩
    have multiple : d.units = k.natAbs * ones := by rw [← size, same, Int.natAbs_mul, Int.natAbs_natCast]
    rw [finite, multiple, Nat.mul_mod_left]
    rfl

end Double

/-- The numbers of integers and of finite doubles. -/
def Value.number? : Value → Option ℚ
  | .int i => some i.toInt
  | .float d => if d.isFinite then some d.number else none
  | .null | .bool _ | .text _ => none

/-- What numbers are brought to. -/
inductive NumberKind where
  | int32
  | int64
  | double
  deriving DecidableEq, Repr

def DataType.numberKind? : DataType → Option NumberKind
  | integer => some .int64
  | float => some .double
  | text | bool => none

def HostType.numberKind? : HostType → Option NumberKind
  | int32 => some .int32
  | int64 => some .int64
  | double => some .double
  | text | bool => none

namespace NumberKind

/-- Some value of the kind denotes the number. -/
def Has : NumberKind → ℚ → Prop
  | int32, x => ∃ i : Int32, (i.toInt : ℚ) = x
  | int64, x => ∃ i : Int64, (i.toInt : ℚ) = x
  | double, x => ∃ d : Double, d.isFinite ∧ d.number = x

/-- The second number is of the kind, and no number of the kind is closer to the first. -/
structure Nearest (kind : NumberKind) (x y : ℚ) : Prop where
  has : kind.Has y
  closest : ∀ z, kind.Has z → |y - x| ≤ |z - x|

variable {kind : NumberKind} {x y : ℚ}

theorem Nearest.self (has : kind.Has x) : kind.Nearest x x := by
  refine ⟨has, fun z _ => ?_⟩
  rw [sub_self, abs_zero]
  exact abs_nonneg _

/-- A number is left as it is exactly when the kind has it. -/
theorem Nearest.eq_iff (nearest : kind.Nearest x y) : y = x ↔ kind.Has x := by
  refine ⟨fun same => same ▸ nearest.has, fun has => ?_⟩
  have close := nearest.closest x has
  rw [sub_self, abs_zero, abs_nonpos_iff, sub_eq_zero] at close
  exact close

theorem toInt_clampedInt64 (k : ℤ) :
    (clampedInt64 k).toInt = max Int64.minValue.toInt (min Int64.maxValue.toInt k) :=
  Int64.toInt_ofInt_of_le (le_max_left _ _) (by
    have ends : Int64.minValue.toInt < 2 ^ 63 ∧ Int64.maxValue.toInt < 2 ^ 63 := by decide
    exact max_lt ends.1 ((min_le_left _ _).trans_lt ends.2))

/-- No integer of 64 bits is closer to a number than the one that it is clamped to. -/
theorem nearest_clampedInt64 (k : ℤ) : int64.Nearest k (clampedInt64 k).toInt := by
  refine ⟨⟨_, rfl⟩, ?_⟩
  rintro _ ⟨i, rfl⟩
  have lower := i.minValue_le_toInt
  have upper := i.toInt_le
  have clamped := toInt_clampedInt64 k
  generalize (clampedInt64 k).toInt = c at clamped ⊢
  have close : |c - k| ≤ |i.toInt - k| := by
    simp only [abs_eq_max_neg]
    omega
  exact_mod_cast close

theorem natAbs_toInt_le (i : Int64) : i.toInt.natAbs ≤ 2 ^ 63 := by
  have lower := i.le_toInt
  have upper := i.toInt_lt
  omega

theorem nearest_ofInt (i : Int64) : double.Nearest i.toInt (Double.ofInt i.toInt).number := by
  refine ⟨⟨_, Double.isFinite_ofInt (natAbs_toInt_le i), rfl⟩, ?_⟩
  rintro _ ⟨d, _, rfl⟩
  exact Double.number_ofInt_nearest (natAbs_toInt_le i) d

theorem has_of_fitsInt32 {i : Int64} (fits : fitsInt32 i) : int32.Has i.toInt := by
  rw [fitsInt32, Bool.and_eq_true, decide_eq_true_eq, decide_eq_true_eq] at fits
  have ends : Int32.maxValue.toInt < 2 ^ 31 := by decide
  exact ⟨Int32.ofInt i.toInt, by rw [Int32.toInt_ofInt_of_le fits.1 (fits.2.trans_lt ends)]⟩

/-- A number that is clamped to 32 bits is within them. -/
theorem clamped_of_fitsInt32 {k : ℤ} (fits : fitsInt32 (clampedInt64 k)) : (clampedInt64 k).toInt = k := by
  rw [fitsInt32, Bool.and_eq_true, decide_eq_true_eq, decide_eq_true_eq] at fits
  have clamped := toInt_clampedInt64 k
  have low : Int64.minValue.toInt < Int32.minValue.toInt := by decide
  have high : Int32.maxValue.toInt < Int64.maxValue.toInt := by decide
  omega

end NumberKind

section Readings

variable {kind : NumberKind} {v w : Value} {x : ℚ}

theorem Value.number?_float {d : Double} (finite : d.isFinite) : (Value.float d).number? = some d.number := if_pos finite

theorem Value.finite_of_number? {d : Double} (number : (Value.float d).number? = some x) : d.isFinite ∧ d.number = x := by
  by_cases finite : d.isFinite
  · exact ⟨finite, Option.some.inj ((number?_float finite).symm.trans number)⟩
  · exact nomatch (if_neg finite).symm.trans number

/-- What is read as an integer is the nearest one to a whole number. -/
theorem Double.int64?_elim_eq_ok {d : Double} {refused : Error} {read : Int64 → Except Error Value} (finite : d.isFinite)
    (run : d.int64?.elim (.error refused) read = .ok w) :
    ∃ k : ℤ, d.number = k ∧ read (clampedInt64 k) = .ok w := by
  unfold int64? at run
  cases whole : d.wholeNumber? with
  | none =>
    rw [whole] at run
    cases run
  | some k =>
    rw [whole] at run
    exact ⟨k, (wholeNumber?_eq_some finite).mp whole, run⟩

theorem Value.nearest_int (i : Int64) : ∃ y, (Value.int i).number? = some y ∧ NumberKind.int64.Nearest i.toInt y :=
  ⟨_, rfl, .self ⟨i, rfl⟩⟩

theorem Value.nearest_float {d : Double} (finite : d.isFinite) :
    ∃ y, (Value.float d).number? = some y ∧ NumberKind.double.Nearest d.number y :=
  ⟨_, number?_float finite, .self ⟨d, finite, rfl⟩⟩

theorem Value.nearest_rounded (i : Int64) :
    ∃ y, (Value.float (.ofInt i.toInt)).number? = some y ∧ NumberKind.double.Nearest i.toInt y :=
  ⟨_, number?_float (Double.isFinite_ofInt (NumberKind.natAbs_toInt_le i)), NumberKind.nearest_ofInt i⟩

/-- A number that is coerced becomes the nearest one of the type. -/
theorem DataType.nearest_of_coerce {type : DataType} (numeric : type.numberKind? = some kind) (number : v.number? = some x)
    (run : type.coerce v = .ok w) : ∃ y, w.number? = some y ∧ kind.Nearest x y := by
  cases v with
  | null | bool _ | text _ => cases number
  | int i =>
    cases number
    cases type with
    | text | bool => cases numeric
    | integer =>
      cases numeric
      cases run
      exact Value.nearest_int i
    | float =>
      cases numeric
      cases run
      exact Value.nearest_rounded i
  | float d =>
    obtain ⟨finite, rfl⟩ := Value.finite_of_number? number
    cases type with
    | text | bool => cases numeric
    | integer =>
      cases numeric
      obtain ⟨k, whole, read⟩ := Double.int64?_elim_eq_ok finite run
      cases read
      exact ⟨_, rfl, whole ▸ NumberKind.nearest_clampedInt64 k⟩
    | float =>
      cases numeric
      cases run
      exact Value.nearest_float finite

/-- A number that a program reads as a wide type is read as a field of the type would have it. -/
theorem HostType.coerce_of_convert {type : HostType} (wide : type ≠ .int32) (number : v.number? = some x)
    (run : type.convert v = .ok w) : type.dataType.coerce v = .ok w := by
  cases v with
  | null | bool _ | text _ => cases number
  | int i =>
    cases type with
    | int32 => exact absurd rfl wide
    | text => cases run
    | int64 | double | bool => exact run
  | float d =>
    cases type with
    | int32 => exact absurd rfl wide
    | double => exact run
    | text | bool => cases run
    | int64 =>
      cases whole : d.int64? with
      | none =>
        simp only [HostType.convert, whole, Option.elim_none] at run
        cases run
      | some i =>
        simp only [HostType.convert, whole, Option.elim_some] at run
        simp only [HostType.dataType, DataType.coerce, whole, Option.elim_some, run]

/-- Integers of 32 bits are refused unless they are as they were. -/
theorem HostType.convert_int32 (number : v.number? = some x) (run : HostType.int32.convert v = .ok w) :
    ∃ i, w = .int i ∧ (i.toInt : ℚ) = x ∧ NumberKind.int32.Has x := by
  have narrow {i : Int64} {refused : Error}
      (run : (if fitsInt32 i then .ok (.int i) else .error refused) = Except.ok w) : w = .int i ∧ fitsInt32 i := by
    split at run
    case isTrue fits => exact ⟨(Except.ok.inj run).symm, fits⟩
    case isFalse => cases run
  cases v with
  | null | bool _ | text _ => cases number
  | int i =>
    cases number
    obtain ⟨same, fits⟩ := narrow run
    exact ⟨i, same, rfl, NumberKind.has_of_fitsInt32 fits⟩
  | float d =>
    obtain ⟨finite, rfl⟩ := Value.finite_of_number? number
    obtain ⟨k, whole, read⟩ := Double.int64?_elim_eq_ok finite run
    obtain ⟨same, fits⟩ := narrow read
    have unchanged : ((clampedInt64 k).toInt : ℚ) = d.number := by rw [NumberKind.clamped_of_fitsInt32 fits, whole]
    exact ⟨_, same, unchanged, unchanged ▸ NumberKind.has_of_fitsInt32 fits⟩

/-- A number that a program reads is the nearest one of its type. -/
theorem HostType.nearest_of_convert {type : HostType} (numeric : type.numberKind? = some kind)
    (number : v.number? = some x) (run : type.convert v = .ok w) : ∃ y, w.number? = some y ∧ kind.Nearest x y := by
  by_cases narrow : type = .int32
  · subst narrow
    cases numeric
    obtain ⟨i, rfl, same, has⟩ := convert_int32 number run
    exact ⟨x, congrArg some same, .self has⟩
  · refine DataType.nearest_of_coerce ?_ number (coerce_of_convert narrow number run)
    cases type with
    | int32 => exact absurd rfl narrow
    | int64 | double | text | bool => exact numeric

end Readings

end EntityMapper
