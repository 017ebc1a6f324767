import EntityMapper.Session.Find
import EntityMapper.Proofs.Numbers.Equality
import EntityMapper.Proofs.Numbers.Readings
import EntityMapper.Proofs.Session.Changes

namespace EntityMapper

/-- Equal values denote one number, if any. -/
theorem Value.number?_of_equal {a b : Value} (equal : (a == b) = true) : a.number? = b.number? := by
  cases a with
  | null =>
    cases b with
    | null => rfl
    | bool _ | int _ | float _ | text _ => cases equal
  | bool _ =>
    cases b with
    | bool _ => rfl
    | null | int _ | float _ | text _ => cases equal
  | text _ =>
    cases b with
    | text _ => rfl
    | null | bool _ | int _ | float _ => cases equal
  | int i =>
    cases b with
    | int j => rw [eq_of_beq (a := i) (b := j) equal]
    | null | bool _ | float _ | text _ => cases equal
  | float d =>
    cases b with
    | float e =>
      have same : (d == e) = true := equal
      obtain rfl | ⟨zeroD, zeroE⟩ := (Double.equal_iff.mp same).2
      · rfl
      · have number := Double.number_eq_iff_pattern.mpr (.inr ⟨zeroD, zeroE⟩)
        rw [number?_float (Double.isFinite_of_isZero zeroD), number?_float (Double.isFinite_of_isZero zeroE), number]
    | null | bool _ | int _ | text _ => cases equal

/-- The ways of a number into an instance and out of one, from what it was to what it is. -/
inductive Brought (kind : NumberKind) (v : Value) : Value → Prop
  | coerced {w : Value} {type : DataType} (numeric : type.numberKind? = some kind) (run : type.coerce v = .ok w) :
      Brought kind v w
  | converted {w : Value} {type : HostType} (numeric : type.numberKind? = some kind) (run : type.convert v = .ok w) :
      Brought kind v w
  | searched {w : Value} {e : Entity} {entity : String} (numeric : e.primaryKey.type.numberKind? = some kind)
      (run : Session.keyOf e entity v = .ok w) : Brought kind v w
  | assigned {i j : Instance} {field : String} {index : ℕ} (found : i.entity.fieldIndex field = .ok index)
      (held : index < i.values.length)
      (numeric : (i.entity.fields.getD index default).type.numberKind? = some kind) (run : i.set field v = .ok j) :
      Brought kind v (j.valueAt index)
  | hydrated {w : Value} {fields : List Field} {columns values : List Value} {n : ℕ} {f : Field}
      (run : Hydration.fieldValues fields columns = .ok values) (field : fields[n]? = some f)
      (numeric : f.type.numberKind? = some kind) (column : columns[n]? = some v) (value : values[n]? = some w) :
      Brought kind v w
  | read {w : Value} {i : Instance} {field : String} {type : HostType} (held : i.value field = .ok v)
      (numeric : type.numberKind? = some kind) (run : i.read type field = .ok (some w)) : Brought kind v w

variable {kind : NumberKind} {v w : Value} {x : ℚ}

theorem DataType.wide_of_numberKind? {type : DataType} (numeric : type.numberKind? = some kind) : kind ≠ .int32 := by
  cases type <;> cases numeric <;> decide

/-- What is stored or read is what one conversion gives, up to the sign of zero. -/
theorem Brought.conversion (brought : Brought kind v w) :
    (∃ type : DataType, type.numberKind? = some kind ∧ ∃ c, type.coerce v = .ok c ∧ w.number? = c.number?) ∨
      ∃ type : HostType, type.numberKind? = some kind ∧ type.convert v = .ok w := by
  cases brought with
  | coerced numeric run => exact .inl ⟨_, numeric, _, run, rfl⟩
  | converted numeric run => exact .inr ⟨_, numeric, run⟩
  | searched numeric run =>
    obtain ⟨_, _, run⟩ := Except.bind_eq_ok.mp run
    exact .inl ⟨_, numeric, _, run, rfl⟩
  | hydrated run field numeric column value =>
    obtain ⟨c, coerced, atValue⟩ := Hydration.fieldValues_at run field column
    cases value.symm.trans atValue
    exact .inl ⟨_, numeric, _, coerced, rfl⟩
  | read held numeric run =>
    obtain ⟨_, own, run⟩ := Except.bind_eq_ok.mp run
    cases held.symm.trans own
    split at run
    · cases run
    · obtain ⟨_, converted, run⟩ := Except.bind_eq_ok.mp run
      cases run
      exact .inr ⟨_, numeric, converted⟩
  | @assigned i j field index found held numeric run =>
    obtain ⟨other, c, same, coerced, ⟨equal, rfl⟩ | ⟨_, rfl⟩⟩ := Instance.set_ok run
    · cases found.symm.trans same
      exact .inl ⟨_, numeric, c, coerced, Value.number?_of_equal equal⟩
    · cases found.symm.trans same
      refine .inl ⟨_, numeric, c, coerced, congrArg Value.number? ?_⟩
      rw [Instance.valueAt, (Instance.alike_touch _ _).values, List.getD_eq_getElem?_getD, List.getElem?_set_self held]
      rfl

/-- A number that gets through becomes the nearest one of its kind. It stays the same exactly when the kind has it, and
of the integers of 32 bits only they get through. -/
theorem Brought.number_kept_iff (brought : Brought kind v w) (number : v.number? = some x) :
    (w.number? = some x ↔ kind.Has x) ∧ (∃ y, w.number? = some y ∧ kind.Nearest x y) ∧ (kind = .int32 → kind.Has x) := by
  have nearest : ∃ y, w.number? = some y ∧ kind.Nearest x y := by
    obtain ⟨type, numeric, c, coerced, same⟩ | ⟨type, numeric, converted⟩ := brought.conversion
    · rw [same]
      exact DataType.nearest_of_coerce numeric number coerced
    · exact HostType.nearest_of_convert numeric number converted
  refine ⟨?_, nearest, ?_⟩
  · obtain ⟨y, own, closest⟩ := nearest
    rw [own, Option.some_inj]
    exact closest.eq_iff
  · rintro rfl
    obtain ⟨type, numeric, _⟩ | ⟨type, numeric, converted⟩ := brought.conversion
    · exact absurd rfl (DataType.wide_of_numberKind? numeric)
    · have narrow : type = .int32 := by cases type <;> cases numeric; rfl
      subst narrow
      obtain ⟨_, _, _, has⟩ := HostType.convert_int32 number converted
      exact has

/-- Beyond the fifty-three bits of its digits a double has only some of the integers. -/
theorem Brought.number_kept_iff_beyond_digits :
    Brought .double (.int 9007199254740993) (.float ⟨0x4340000000000000⟩) ∧
      ¬NumberKind.double.Has (9007199254740993 : ℤ) := by
  have brought : Brought .double (.int 9007199254740993) (.float ⟨0x4340000000000000⟩) := by
    have coerced : DataType.float.coerce (.int 9007199254740993) = .ok (.float ⟨0x4340000000000000⟩) := by decide +kernel
    exact .coerced rfl coerced
  have rounded : (Value.float ⟨0x4340000000000000⟩).number? = some ((9007199254740992 : ℤ) : ℚ) := by
    have units : Double.signedUnits ⟨0x4340000000000000⟩ = 9007199254740992 * Double.unitsPerOne := by decide +kernel
    rw [Value.number?_float (by decide), Double.number_eq_iff.mpr units]
  refine ⟨brought, fun has => ?_⟩
  have kept := (Brought.number_kept_iff brought rfl).1.mpr has
  rw [rounded, Option.some_inj, Int.cast_inj] at kept
  exact absurd kept (by decide)

/-- Ten to the nineteenth is whole, and the largest integer takes its place. -/
theorem DataType.coerce_clamps : DataType.integer.coerce (.float ⟨0x43e158e460913d00⟩) = .ok (.int 9223372036854775807) ∧
    (Value.float ⟨0x43e158e460913d00⟩).number? = some ((10 ^ 19 : ℤ) : ℚ) ∧
      (Value.int 9223372036854775807).number? = some ((9223372036854775807 : ℤ) : ℚ) := by
  refine ⟨by decide +kernel, ?_, rfl⟩
  have units : Double.signedUnits ⟨0x43e158e460913d00⟩ = 10 ^ 19 * Double.unitsPerOne := by decide +kernel
  rw [Value.number?_float (by decide), Double.number_eq_iff.mpr units]

end EntityMapper
