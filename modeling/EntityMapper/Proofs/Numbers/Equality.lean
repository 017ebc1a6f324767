import EntityMapper.Proofs.Numbers.Rounding

namespace EntityMapper.Double

variable {a b d : Double}

theorem eq_of_fields (sign : a.isNegative = b.isNegative) (exponent : a.exponentField = b.exponentField)
    (fraction : a.fraction = b.fraction) : a = b := by
  have boundA := a.bits.toNat_lt
  have boundB := b.bits.toNat_lt
  simp only [isNegative, exponentField, Double.fraction, Nat.pow_eq, decide_eq_decide] at sign exponent fraction
  have bits : a.bits.toNat = b.bits.toNat := by omega
  cases a
  cases b
  exact congrArg Double.mk (UInt64.toNat_inj.mp bits)

/-- Sizes are ordered as the exponent fields are. -/
theorem units_lt_of_exponentField_lt (lower : a.exponentField < b.exponentField) : a.units < b.units := by
  have nonzero : b.exponentField ≠ 0 := by omega
  have scales : 2 ^ a.exponentField ≤ 2 ^ b.scale := Nat.pow_le_pow_right (by decide) (by unfold scale; omega)
  have upper : a.units < 2 ^ 52 * 2 ^ a.exponentField := by
    have small := a.fraction_lt
    unfold units significand scale
    rw [Nat.pow_eq, Nat.pow_eq]
    split
    case isTrue zero =>
      rw [zero]
      exact Nat.mul_lt_mul_of_pos_right small (by decide)
    case isFalse normal =>
      obtain ⟨e, exponent⟩ := Nat.exists_eq_succ_of_ne_zero normal
      have doubled : 2 ^ e.succ = 2 * 2 ^ e := pow_succ' 2 e
      rw [exponent, Nat.succ_sub_one, doubled, ← mul_assoc]
      exact Nat.mul_lt_mul_of_pos_right (by omega) (Nat.two_pow_pos e)
  calc a.units < 2 ^ 52 * 2 ^ a.exponentField := upper
    _ ≤ 2 ^ 52 * 2 ^ b.scale := Nat.mul_le_mul_left _ scales
    _ ≤ b.units := by
      unfold units significand
      rw [if_neg nonzero, Nat.pow_eq, Nat.pow_eq]
      exact Nat.mul_le_mul_right _ (Nat.le_add_right _ _)

/-- Numbers of one size have one pattern apart from the sign. -/
theorem fields_of_units (same : a.units = b.units) : a.exponentField = b.exponentField ∧ a.fraction = b.fraction := by
  have exponent : a.exponentField = b.exponentField := by
    rcases Nat.lt_trichotomy a.exponentField b.exponentField with lower | equal | upper
    · exact absurd same (units_lt_of_exponentField_lt lower).ne
    · exact equal
    · exact absurd same (units_lt_of_exponentField_lt upper).ne'
  refine ⟨exponent, ?_⟩
  unfold units significand scale at same
  rw [exponent] at same
  have significands := Nat.eq_of_mul_eq_mul_right (Nat.two_pow_pos (b.exponentField - 1)) same
  split at significands
  · exact significands
  · exact Nat.add_left_cancel significands

theorem units_eq_zero : d.units = 0 ↔ d.isZero := by
  have scale := Nat.two_pow_pos d.scale
  rw [isZero, Bool.and_eq_true, beq_iff_eq, beq_iff_eq, units, Nat.pow_eq, Nat.mul_eq_zero, or_iff_left scale.ne',
    significand, Nat.pow_eq]
  split
  case isTrue zero => exact ⟨fun fraction => ⟨zero, fraction⟩, And.right⟩
  case isFalse normal => exact ⟨fun none => absurd none (by omega), fun zero => absurd zero.1 normal⟩

theorem isFinite_of_isZero (zero : d.isZero) : d.isFinite := by
  rw [isZero, Bool.and_eq_true, beq_iff_eq] at zero
  rw [isFinite, zero.1]
  rfl

theorem number_eq_number : a.number = b.number ↔ a.signedUnits = b.signedUnits := by
  have nonzero : (unitsPerOne : ℚ) ≠ 0 := by exact_mod_cast unitsPerOne_pos.ne'
  rw [number, number, div_left_inj' nonzero, Int.cast_inj]

/-- Finite patterns that denote one number are the same, up to the sign of zero. -/
theorem number_eq_iff_pattern : a.number = b.number ↔ a = b ∨ a.isZero ∧ b.isZero := by
  rw [number_eq_number]
  constructor
  · intro same
    have sizes : a.units = b.units := by rw [← natAbs_signedUnits, ← natAbs_signedUnits, same]
    obtain ⟨exponent, fraction⟩ := fields_of_units sizes
    by_cases sign : a.isNegative = b.isNegative
    · exact .inl (eq_of_fields sign exponent fraction)
    · right
      have none : b.units = 0 := by
        rw [signedUnits, signedUnits, sizes] at same
        split at same
        case isTrue negative =>
          split at same
          case isTrue other => exact absurd (negative.trans other.symm) sign
          case isFalse => omega
        case isFalse positive =>
          split at same
          case isTrue => omega
          case isFalse other => exact absurd ((eq_false_of_ne_true positive).trans (eq_false_of_ne_true other).symm) sign
      exact ⟨units_eq_zero.mp (sizes.trans none), units_eq_zero.mp none⟩
  · rintro (rfl | ⟨zeroA, zeroB⟩)
    · rfl
    · rw [signedUnits, signedUnits, units_eq_zero.mpr zeroA, units_eq_zero.mpr zeroB, Nat.cast_zero, neg_zero, ite_self,
        ite_self]

theorem isNaN_of_isFinite (finite : d.isFinite) : d.isNaN = false := by rw [isNaN, finite, Bool.not_true, Bool.false_and]

/-- The two zeros are equal, and otherwise equal numbers have equal patterns. -/
theorem equal_iff : (a == b) = true ↔ (a.isNaN = false ∧ b.isNaN = false) ∧ (a = b ∨ a.isZero ∧ b.isZero) := by
  have patterns : a.bits = b.bits ↔ a = b := by
    cases a
    cases b
    exact (Double.mk.injEq _ _).symm.to_iff
  change equal a b = true ↔ _
  rw [equal, Bool.and_eq_true, Bool.and_eq_true, Bool.not_eq_true', Bool.not_eq_true', Bool.or_eq_true, Bool.and_eq_true,
    beq_iff_eq, patterns]

end EntityMapper.Double
