import Mathlib.Algebra.Order.Field.Rat
import Mathlib.Tactic.Linarith
import Mathlib.Tactic.Positivity
import Mathlib.Tactic.Ring
import EntityMapper.Double

namespace EntityMapper

/-- No multiple of the divisor is closer to a number than the rounded one. -/
theorem roundedQuotient_nearest (n : ℕ) {d : ℕ} (positive : 0 < d) (k : ℤ) :
    |(Double.roundedQuotient n d * d - n : ℤ)| ≤ |k * d - n| := by
  have division : (n : ℤ) = (n / d : ℕ) * d + (n % d : ℕ) := by exact_mod_cast (Nat.div_add_mod' n d).symm
  have small : n % d < d := Nat.mod_lt n positive
  -- a multiple at or below the quotient is off by the remainder at least, one above it by what the remainder lacks
  have far : (n % d : ℕ) ≤ |k * d - n| ∨ (d : ℤ) - (n % d : ℕ) ≤ |k * d - n| := by
    rcases le_or_gt k (n / d : ℕ) with below | above
    · have scaled : k * d ≤ (n / d : ℕ) * d := mul_le_mul_of_nonneg_right below (Int.natCast_nonneg d)
      exact .inl (le_trans (by linarith) (neg_le_abs _))
    · have scaled : ((n / d : ℕ) + 1 : ℤ) * d ≤ k * d := mul_le_mul_of_nonneg_right above (Int.natCast_nonneg d)
      exact .inr (le_trans (by linarith) (le_abs_self _))
  unfold Double.roundedQuotient
  split
  case isTrue up =>
    have own : (((n / d + 1 : ℕ) * d - n : ℤ)) = d - (n % d : ℕ) := by
      push_cast at division ⊢
      linarith
    rw [own, abs_of_nonneg (by omega)]
    omega
  case isFalse down =>
    have own : (((n / d : ℕ) * d - n : ℤ)) = -(n % d : ℕ) := by linarith
    rw [own, abs_neg, abs_of_nonneg (by omega)]
    omega

namespace Double

/-- A finite number as a multiple of the smallest positive one. -/
def signedUnits (d : Double) : ℤ := if d.isNegative then -d.units else d.units

theorem natAbs_signedUnits (d : Double) : d.signedUnits.natAbs = d.units := by
  unfold signedUnits
  split
  · rw [Int.natAbs_neg, Int.natAbs_natCast]
  · exact Int.natAbs_natCast _

/-- The number that a finite pattern denotes. -/
def number (d : Double) : ℚ := d.signedUnits / unitsPerOne

theorem unitsPerOne_eq : unitsPerOne = 2 ^ 1074 := by decide +kernel

theorem unitsPerOne_pos : 0 < unitsPerOne := by decide +kernel

theorem fields_ofNat {sign exponent fraction : ℕ} (signs : sign ≤ 1) (exponents : exponent < 2 ^ 11)
    (fractions : fraction < 2 ^ 52) {d : Double}
    (pattern : d = ⟨UInt64.ofNat (sign * 2 ^ 63 + exponent * 2 ^ 52 + fraction)⟩) :
    (d.isNegative ↔ sign = 1) ∧ d.exponentField = exponent ∧ d.fraction = fraction := by
  have bits : d.bits.toNat = sign * 2 ^ 63 + exponent * 2 ^ 52 + fraction := by
    rw [pattern, UInt64.toNat_ofNat']
    omega
  simp only [isNegative, exponentField, Double.fraction, bits, Nat.pow_eq, decide_eq_true_eq]
  omega

/-- The significand of a nonzero size with fifty-two bits behind the leading one, which may round up to the next power
of two. -/
def roundedSize (size : ℕ) : ℕ :=
  if size.log2 ≤ 52 then size * 2 ^ (52 - size.log2) else roundedQuotient size (2 ^ (size.log2 - 52))

theorem ofInt_pattern {i : ℤ} (nonzero : i ≠ 0) : ofInt i = ⟨UInt64.ofNat ((if i < 0 then 1 else 0) * 2 ^ 63 +
    (i.natAbs.log2 + 1022) * 2 ^ 52 + roundedSize i.natAbs)⟩ := by
  rw [ofInt, if_neg nonzero]
  simp only [roundedSize, Nat.pow_eq, ite_mul, one_mul, zero_mul]

theorem roundedSize_bounds {size : ℕ} (nonzero : size ≠ 0) : 2 ^ 52 ≤ roundedSize size ∧ roundedSize size ≤ 2 ^ 53 := by
  have lower := Nat.log2_self_le nonzero
  have upper := Nat.lt_log2_self (n := size)
  unfold roundedSize
  split
  case isTrue small =>
    have whole : 2 ^ size.log2 * 2 ^ (52 - size.log2) = 2 ^ 52 := by rw [← pow_add, Nat.add_sub_cancel' small]
    have scaled : size * 2 ^ (52 - size.log2) ≤ 2 ^ (size.log2 + 1) * 2 ^ (52 - size.log2) :=
      Nat.mul_le_mul_right _ upper.le
    rw [pow_succ, Nat.mul_right_comm, whole] at scaled
    exact ⟨whole ▸ Nat.mul_le_mul_right _ lower, scaled⟩
  case isFalse large =>
    have whole : 2 ^ size.log2 = 2 ^ 52 * 2 ^ (size.log2 - 52) := by
      rw [← pow_add, Nat.add_sub_cancel' (Nat.le_of_not_le large)]
    have positive : 0 < 2 ^ (size.log2 - 52) := Nat.two_pow_pos _
    have above : 2 ^ 52 ≤ size / 2 ^ (size.log2 - 52) := (Nat.le_div_iff_mul_le positive).mpr (whole ▸ lower)
    have below : size / 2 ^ (size.log2 - 52) < 2 ^ 53 := by
      rw [Nat.div_lt_iff_lt_mul positive]
      rw [pow_succ, whole] at upper
      linarith
    unfold roundedQuotient
    split <;> omega

/-- A significand that rounds up to the next power of two is carried into the exponent, which leaves the size as it is. -/
theorem carried_units {r : ℕ} (lower : 2 ^ 52 ≤ r) (upper : r ≤ 2 ^ 53) (t : ℕ) :
    (2 ^ 52 + r % 2 ^ 52) * 2 ^ (t + 1022 + r / 2 ^ 52 - 1) = r * 2 ^ (t + 1022) := by
  rcases Nat.lt_or_eq_of_le upper with below | full
  · have one : r / 2 ^ 52 = 1 := by omega
    have own : 2 ^ 52 + r % 2 ^ 52 = r := by omega
    rw [one, own, Nat.add_sub_cancel]
  · have two : r / 2 ^ 52 = 2 := by omega
    have own : 2 ^ 52 + r % 2 ^ 52 = 2 ^ 52 := by omega
    have whole : r = 2 ^ 52 * 2 := by omega
    rw [two, own, whole, mul_assoc, ← pow_succ']
    rfl

/-- The size of a nonzero integer that is rounded, with its sign. -/
theorem units_ofInt {i : ℤ} (nonzero : i ≠ 0) (size : i.natAbs ≤ 2 ^ 63) :
    ((ofInt i).isNegative ↔ i < 0) ∧ (ofInt i).isFinite ∧
      (ofInt i).units = roundedSize i.natAbs * 2 ^ (i.natAbs.log2 + 1022) := by
  have known : i.natAbs ≠ 0 := Int.natAbs_ne_zero.mpr nonzero
  have top : i.natAbs.log2 < 64 := (Nat.log2_lt known).mpr (by omega)
  obtain ⟨lower, upper⟩ := roundedSize_bounds known
  have pattern := ofInt_pattern nonzero
  generalize roundedSize i.natAbs = r at lower upper pattern ⊢
  generalize i.natAbs.log2 = t at top pattern ⊢
  have sign : (if i < 0 then 1 else 0) ≤ 1 := by split <;> omega
  have carried : (t + 1022) * 2 ^ 52 + r = (t + 1022 + r / 2 ^ 52) * 2 ^ 52 + r % 2 ^ 52 := by omega
  have room : t + 1022 + r / 2 ^ 52 < 2047 := by omega
  rw [add_assoc, carried, ← add_assoc] at pattern
  obtain ⟨negative, exponent, fraction⟩ := fields_ofNat sign (room.trans (by decide)) (Nat.mod_lt r (by decide)) pattern
  refine ⟨?_, ?_, ?_⟩
  · rw [negative]
    split <;> simp_all
  · rw [isFinite, exponent, bne_iff_ne]
    exact room.ne
  · have field : t + 1022 + r / 2 ^ 52 ≠ 0 := by omega
    rw [units, significand, scale, exponent, fraction, if_neg field, Nat.pow_eq, Nat.pow_eq]
    exact carried_units lower upper t

theorem fraction_lt (d : Double) : d.fraction < 2 ^ 52 := Nat.mod_lt _ (by decide)

theorem significand_lt (d : Double) : d.significand < 2 ^ 53 := by
  have small := d.fraction_lt
  unfold significand
  rw [Nat.pow_eq]
  split <;> omega

/-- A number is on the grid of each power of two or so small that all its digits are below that of the grid. -/
theorem units_on_grid (d : Double) (k : ℕ) : 2 ^ k ∣ d.units ∨ d.units < 2 ^ 52 * 2 ^ k := by
  rw [units, Nat.pow_eq]
  rcases le_or_gt k d.scale with coarse | fine
  · exact .inl (Dvd.dvd.mul_left (pow_dvd_pow 2 coarse) _)
  · refine .inr ?_
    obtain ⟨j, rfl⟩ := Nat.exists_eq_add_of_lt fine
    have scaled : 2 ^ d.scale * 2 ≤ 2 ^ (d.scale + j + 1) := by
      rw [← pow_succ]
      exact Nat.pow_le_pow_right (by decide) (by omega)
    have scale := Nat.two_pow_pos d.scale
    calc d.significand * 2 ^ d.scale < 2 ^ 53 * 2 ^ d.scale := Nat.mul_lt_mul_of_pos_right d.significand_lt scale
      _ = 2 ^ 52 * (2 ^ d.scale * 2) := by ring
      _ ≤ 2 ^ 52 * 2 ^ (d.scale + j + 1) := Nat.mul_le_mul_left _ scaled

theorem whole_step {t : ℕ} (small : t ≤ 52) : 2 ^ (52 - t) * 2 ^ (t + 1022) = unitsPerOne := by
  have exponent : 52 - t + (t + 1022) = 1074 := by omega
  rw [unitsPerOne_eq, ← pow_add, exponent]

theorem coarse_step {t : ℕ} (large : 52 < t) : 2 ^ (t + 1022) = 2 ^ (t - 52) * unitsPerOne := by
  have exponent : t - 52 + 1074 = t + 1022 := by omega
  rw [unitsPerOne_eq, ← pow_add, exponent]

/-- Nothing on the grid of a size's digits, and nothing below the leading one of them, is closer to the size than the
rounded one. -/
theorem roundedSize_nearest {size : ℕ} (nonzero : size ≠ 0) {u : ℤ}
    (grid : ((2 ^ (size.log2 + 1022) : ℕ) : ℤ) ∣ u ∨ u < (2 ^ 52 * 2 ^ (size.log2 + 1022) : ℕ)) :
    |((roundedSize size * 2 ^ (size.log2 + 1022) : ℕ) - (size * unitsPerOne : ℕ) : ℤ)| ≤
      |u - (size * unitsPerOne : ℕ)| := by
  have leading := Nat.log2_self_le nonzero
  unfold roundedSize
  split
  case isTrue small =>
    rw [mul_assoc, whole_step small, sub_self, abs_zero]
    exact abs_nonneg _
  case isFalse large =>
    have whole : 2 ^ 52 * 2 ^ (size.log2 - 52) = 2 ^ size.log2 := by
      rw [← pow_add, Nat.add_sub_cancel' (Nat.le_of_not_le large)]
    rw [← whole] at leading
    rw [coarse_step (Nat.lt_of_not_le large)] at grid ⊢
    have nearest := roundedQuotient_nearest size (Nat.two_pow_pos (size.log2 - 52))
    generalize 2 ^ (size.log2 - 52) = d at leading grid nearest ⊢
    have positive := unitsPerOne_pos
    generalize unitsPerOne = ones at grid positive ⊢
    have closest (k : ℤ) :
        |((roundedQuotient size d * (d * ones) : ℕ) - (size * ones : ℕ) : ℤ)| ≤
          |k * (d * ones : ℕ) - (size * ones : ℕ)| := by
      have scaled := mul_le_mul_of_nonneg_right (nearest k) (Int.natCast_nonneg ones)
      rw [← Nat.abs_cast ones, ← abs_mul, ← abs_mul, sub_mul, sub_mul] at scaled
      push_cast
      rwa [← mul_assoc, ← mul_assoc]
    rcases grid with ⟨k, rfl⟩ | below
    · rw [mul_comm _ k]
      exact closest k
    · have bound : ((2 ^ 52 * (d * ones) : ℕ) : ℤ) ≤ (size * ones : ℕ) := by
        rw [← mul_assoc]
        exact_mod_cast Nat.mul_le_mul_right ones leading
      refine (closest (2 ^ 52)).trans ?_
      push_cast at below bound ⊢
      rw [abs_of_nonpos (by linarith), abs_of_nonpos (by linarith)]
      linarith

/-- A number on either side of zero is on the grid of a power of two or below its leading digits. -/
theorem signedUnits_on_grid (d : Double) (k : ℕ) {u : ℤ} (same : u = d.signedUnits ∨ u = -d.signedUnits) :
    ((2 ^ k : ℕ) : ℤ) ∣ u ∨ u < (2 ^ 52 * 2 ^ k : ℕ) := by
  have sides : u = d.units ∨ u = -d.units := by
    unfold signedUnits at same
    split at same <;> omega
  rcases d.units_on_grid k with ⟨c, multiple⟩ | below
  · left
    have own : ((2 ^ k : ℕ) : ℤ) ∣ d.units := ⟨c, by exact_mod_cast multiple⟩
    rcases sides with rfl | rfl
    · exact own
    · exact dvd_neg.mpr own
  · right
    have own : (d.units : ℤ) < (2 ^ 52 * 2 ^ k : ℕ) := by exact_mod_cast below
    rcases sides with rfl | rfl
    · exact own
    · exact (neg_le_self (Int.natCast_nonneg _)).trans_lt own

/-- No finite number is closer to an integer of 64 bits than the one that it is rounded to. -/
theorem ofInt_nearest {i : ℤ} (size : i.natAbs ≤ 2 ^ 63) (d : Double) :
    |(ofInt i).signedUnits - i * unitsPerOne| ≤ |d.signedUnits - i * unitsPerOne| := by
  by_cases nonzero : i = 0
  · rw [nonzero, zero_mul, sub_zero]
    exact abs_nonneg _
  · obtain ⟨sign, _, rounded⟩ := units_ofInt nonzero size
    have known : i.natAbs ≠ 0 := Int.natAbs_ne_zero.mpr nonzero
    have nearest {u : ℤ} (same : u = d.signedUnits ∨ u = -d.signedUnits) :=
      roundedSize_nearest known (d.signedUnits_on_grid (i.natAbs.log2 + 1022) same)
    rw [← rounded] at nearest
    by_cases negative : i < 0
    · have own : i * unitsPerOne = -((i.natAbs * unitsPerOne : ℕ) : ℤ) := by
        rw [Nat.cast_mul, Int.ofNat_natAbs_of_nonpos negative.le, neg_mul, neg_neg]
      have turned (a : ℤ) : |-a - i * unitsPerOne| = |a - (i.natAbs * unitsPerOne : ℕ)| := by
        rw [own, neg_sub_neg, abs_sub_comm]
      rw [signedUnits, if_pos (sign.mpr negative), turned, ← neg_neg d.signedUnits, turned]
      exact nearest (.inr rfl)
    · have own : i * unitsPerOne = ((i.natAbs * unitsPerOne : ℕ) : ℤ) := by
        rw [Nat.cast_mul, Int.natAbs_of_nonneg (not_lt.mp negative)]
      rw [signedUnits, if_neg (mt sign.mp negative), own]
      exact nearest (.inl rfl)

end Double

end EntityMapper
