import Mathlib
import ScriptLexer.Proofs.Number.Nearest
import ScriptLexer.Proofs.Number.Shortest

namespace ScriptLexer

/-! The precision of whole numbers.  Up to `2 ^ 53` the doubles are no further apart than one, so
that a multiple of ten is read as itself only.  A whole number is hence found at the precision at
which the zeros at its end are all that is left out.
-/

namespace Magnitude

variable {magnitude count zeros : ℕ}

/-- The magnitude of `2 ^ 53`, up to which all whole numbers are doubles. -/
def wholeLimit : ℕ := 1076 * fieldUnit

theorem value_wholeLimit : value wholeLimit = 2 ^ 53 := by
  have scale : units wholeLimit = 2 ^ 53 * unitsPerOne := by decide +kernel
  rw [value, scale, Nat.cast_mul, mul_div_cancel_right₀ _ unitsPerOne_pos.ne', Nat.cast_pow]
  rfl

theorem gap_wholeLimit_sub_one : gap (wholeLimit - 1) = 1 := by
  have scale : step (wholeLimit - 1) = unitsPerOne := by decide +kernel
  rw [gap, scale, div_self unitsPerOne_pos.ne']

theorem gap_wholeLimit : gap wholeLimit = 2 := by
  have scale : step wholeLimit = 2 * unitsPerOne := by decide +kernel
  rw [gap, scale, Nat.cast_mul, mul_div_cancel_right₀ _ unitsPerOne_pos.ne']
  rfl

theorem le_wholeLimit (isValue : value magnitude = count) (small : count ≤ 2 ^ 53) :
    magnitude ≤ wholeLimit := by
  by_contra beyond
  have above := value_lt_value (not_le.mp beyond)
  have smallRat : (count : ℚ) ≤ 2 ^ 53 := by exact_mod_cast small
  rw [value_wholeLimit, isValue] at above
  exact above.not_ge smallRat

theorem lt_infinity_of_value_eq (isValue : value magnitude = count) (small : count ≤ 2 ^ 53) :
    magnitude < infinity :=
  (le_wholeLimit isValue small).trans_lt (by decide)

/-- Doubled often enough, a whole number has all of the 53 bits that there is room for. -/
theorem exists_shift (positive : 0 < count) (small : count ≤ 2 ^ 53) :
    ∃ shift ≤ 52, fieldUnit ≤ count * 2 ^ shift ∧ count * 2 ^ shift ≤ 2 * fieldUnit := by
  have lower := Nat.log2_self_le positive.ne'
  have upper : count < 2 ^ (Nat.log2 count + 1) := Nat.lt_log2_self
  refine ⟨52 - Nat.log2 count, Nat.sub_le _ _, ?_, ?_⟩
  · calc fieldUnit = 2 ^ 52 := by decide
      _ ≤ 2 ^ (Nat.log2 count + (52 - Nat.log2 count)) :=
        Nat.pow_le_pow_right (by decide) (by omega)
      _ = 2 ^ Nat.log2 count * 2 ^ (52 - Nat.log2 count) := Nat.pow_add _ _ _
      _ ≤ count * 2 ^ (52 - Nat.log2 count) := Nat.mul_le_mul_right _ lower
  · by_cases short : Nat.log2 count ≤ 52
    · calc count * 2 ^ (52 - Nat.log2 count) ≤
            2 ^ (Nat.log2 count + 1) * 2 ^ (52 - Nat.log2 count) :=
          Nat.mul_le_mul_right _ upper.le
        _ = 2 ^ (Nat.log2 count + 1 + (52 - Nat.log2 count)) := (Nat.pow_add _ _ _).symm
        _ ≤ 2 ^ 53 := Nat.pow_le_pow_right (by decide) (by omega)
        _ = 2 * fieldUnit := by decide
    · have none : 52 - Nat.log2 count = 0 := by omega
      rw [none, Nat.pow_zero, Nat.mul_one]
      exact small

theorem exists_value_eq (small : count ≤ 2 ^ 53) : ∃ magnitude, value magnitude = count := by
  rcases Nat.eq_zero_or_pos count with rfl | positive
  · exact ⟨0, value_zero.trans Nat.cast_zero.symm⟩
  · obtain ⟨shift, few, normal, fits⟩ := exists_shift positive small
    obtain ⟨bits, enough, perOne⟩ : ∃ bits, 52 ≤ bits ∧ unitsPerOne = 2 ^ bits :=
      ⟨1074, by decide, by decide +kernel⟩
    refine ⟨(bits - shift) * fieldUnit + count * 2 ^ shift, ?_⟩
    rw [value, units_mul_fieldUnit_add fits (.inr normal), Nat.mul_assoc,
      pow_mul_pow_sub 2 (few.trans enough), ← perOne, Nat.cast_mul,
      mul_div_cancel_right₀ _ unitsPerOne_pos.ne']

theorem pos_of_value_eq (isValue : value magnitude = count) (positive : 0 < count) :
    0 < magnitude := by
  rw [Nat.pos_iff_ne_zero]
  rintro rfl
  rw [value_zero] at isValue
  exact positive.ne (Nat.cast_injective (R := ℚ) (Nat.cast_zero.trans isValue))

/-- A whole number has its first digit where its numeral has it. -/
theorem leadingExponent_eq (isValue : value magnitude = count) (positive : 0 < count) :
    leadingExponent magnitude = (Numeral.ofNat count).length - 1 := by
  obtain ⟨atLeast, less⟩ := value_bounds (pos_of_value_eq isValue positive)
  obtain ⟨lower, upper⟩ := Numeral.pow_le_and_lt_pow positive
  have some := Numeral.length_ofNat_pos count
  set length := (Numeral.ofNat count).length
  rw [isValue] at atLeast less
  have lowerRat : (10 : ℚ) ^ ((length - 1 : ℕ) : ℤ) ≤ count := by exact_mod_cast lower
  have upperRat : (count : ℚ) < 10 ^ (length : ℤ) := by exact_mod_cast upper
  have before := (zpow_lt_zpow_iff_right₀ (by norm_num)).mp (atLeast.trans_lt upperRat)
  have behind := (zpow_lt_zpow_iff_right₀ (by norm_num)).mp (lowerRat.trans_lt less)
  omega

/-- Without the zeros at its end a whole number is rounded to itself. -/
theorem significant_eq (isValue : value magnitude = (count * 10 ^ zeros : ℕ))
    (positive : 0 < count) :
    significant magnitude (Numeral.ofNat count).length = ⟨count, zeros⟩ := by
  have whole : 0 < count * 10 ^ zeros := Nat.mul_pos positive (Nat.pow_pos (by decide))
  have place : leadingExponent magnitude + 1 - (Numeral.ofNat count).length = zeros := by
    rw [leadingExponent_eq isValue whole, Numeral.ofNat_mul_pow positive, List.length_append,
      List.length_replicate]
    push_cast
    ring
  have exactly : (count : ℚ) * 10 ^ (zeros : ℤ) = value magnitude := by
    rw [isValue, Nat.cast_mul, Nat.cast_pow, Nat.cast_ofNat, zpow_natCast]
  have power : (0 : ℚ) < 10 ^ (zeros : ℤ) := zpow_pos (by norm_num) _
  have rounded : (roundedAt magnitude zeros).value = count * 10 ^ (zeros : ℤ) := by
    apply value_roundedAt_of_near
    rw [exactly, sub_self, abs_zero, mul_zero]
    exact power
  have digits : (roundedAt magnitude zeros).digits = count :=
    Nat.cast_injective (R := ℚ) (mul_right_cancel₀ power.ne' rounded)
  rw [significant, place, ← digits]
  rfl

end Magnitude

namespace Decimal

open Magnitude (gap_le_gap gap_wholeLimit gap_wholeLimit_sub_one le_wholeLimit precision
  significant value_wholeLimit wholeLimit)

variable {decimal : Decimal} {magnitude count zeros : ℕ}

/-- What stands for the value of a magnitude is read as it. -/
theorem magnitude_eq_of_value (finite : magnitude < Magnitude.infinity)
    (same : decimal.value = Magnitude.value magnitude) : decimal.magnitude = magnitude := by
  apply magnitude_eq_of_near finite
  · rw [same, sub_self, mul_zero]
    exact Magnitude.gap_pos magnitude
  · rw [same, sub_self, mul_zero]
    exact Magnitude.gap_pos (magnitude - 1)

/-- Whole numbers are read without rounding. -/
theorem value_magnitude_whole (small : count ≤ 2 ^ 53) :
    Magnitude.value (⟨count, 0⟩ : Decimal).magnitude = count := by
  obtain ⟨magnitude, isValue⟩ := Magnitude.exists_value_eq small
  have finite := Magnitude.lt_infinity_of_value_eq isValue small
  have same : (⟨count, 0⟩ : Decimal).value = Magnitude.value magnitude := by
    rw [isValue, value_mk, zpow_zero, mul_one]
  rw [magnitude_eq_of_value finite same, isValue]

/-- No other multiple of ten is read as a whole number. -/
theorem eq_of_reads_of_dvd {multiple : ℕ} (isValue : Magnitude.value magnitude = count)
    (positive : 0 < count) (small : count ≤ 2 ^ 53) (reads : decimal.magnitude = magnitude)
    (isMultiple : decimal.value = multiple) (tens : 10 ∣ multiple) : multiple = count := by
  have finite := Magnitude.lt_infinity_of_value_eq isValue small
  have some := Magnitude.pos_of_value_eq isValue positive
  have reached := le_wholeLimit isValue small
  subst reads
  have above := two_mul_sub_value_le finite
  have below := two_mul_value_sub_le some
  rw [isValue, isMultiple] at above below
  have atLeast : count ≤ multiple := by
    have narrow := gap_le_gap (Nat.sub_le_sub_right reached 1)
    rw [gap_wholeLimit_sub_one] at narrow
    have whole : 2 * count ≤ 2 * multiple + 1 := by
      exact_mod_cast (by linarith : 2 * (count : ℚ) ≤ 2 * multiple + 1)
    omega
  rcases Nat.lt_or_eq_of_le reached with inside | isLimit
  · have narrow := gap_le_gap (Nat.le_sub_one_of_lt inside)
    rw [gap_wholeLimit_sub_one] at narrow
    have whole : 2 * multiple ≤ 2 * count + 1 := by
      exact_mod_cast (by linarith : 2 * (multiple : ℚ) ≤ 2 * count + 1)
    omega
  · -- the number behind the limit is not a double, but it is no multiple of ten
    rw [isLimit, gap_wholeLimit] at above
    rw [isLimit, value_wholeLimit] at isValue
    have isCount : 2 ^ 53 = count := by exact_mod_cast isValue
    have whole : multiple ≤ count + 1 := by
      exact_mod_cast (by linarith : (multiple : ℚ) ≤ count + 1)
    omega

variable (isValue : Magnitude.value magnitude = (count * 10 ^ zeros : ℕ))
  (small : count * 10 ^ zeros ≤ 2 ^ 53) (trimmed : ¬ 10 ∣ count)

include isValue small trimmed

/-- Rounded to fewer digits than it has without the zeros at its end, a whole number is another. -/
theorem length_le_of_reads {digits : ℕ}
    (reads : (significant magnitude digits).magnitude = magnitude) :
    (Numeral.ofNat count).length ≤ digits := by
  have positive := Numeral.pos_of_not_dvd trimmed
  have whole : 0 < count * 10 ^ zeros := Nat.mul_pos positive (Nat.pow_pos (by decide))
  by_contra fewer
  set length := (Numeral.ofNat count).length with isLength
  -- what it is rounded to ends in more zeros
  have place : (significant magnitude digits).exponent = (zeros + (length - digits) : ℕ) := by
    change Magnitude.leadingExponent magnitude + 1 - digits = _
    rw [Magnitude.leadingExponent_eq isValue whole, Numeral.ofNat_mul_pow positive,
      List.length_append, List.length_replicate, ← isLength]
    omega
  set rounded := (significant magnitude digits).digits
  have isMultiple : (significant magnitude digits).value =
      (rounded * 10 ^ (zeros + (length - digits)) : ℕ) := by
    rw [value, place, zpow_natCast, Nat.cast_mul, Nat.cast_pow, Nat.cast_ofNat]
  have tens : 10 ∣ rounded * 10 ^ (zeros + (length - digits)) :=
    (dvd_pow_self 10 (by omega)).mul_left rounded
  have same := eq_of_reads_of_dvd isValue whole small reads isMultiple tens
  apply trimmed
  rw [pow_add, mul_left_comm, mul_comm count] at same
  rw [← Nat.eq_of_mul_eq_mul_left (Nat.pow_pos (by decide)) same]
  exact (dvd_pow_self 10 (by omega)).mul_left rounded

/-- The precision of a whole number is its length without the zeros at its end. -/
theorem precision_eq_length : precision magnitude = (Numeral.ofNat count).length := by
  have positive := Numeral.pos_of_not_dvd trimmed
  have finite := Magnitude.lt_infinity_of_value_eq isValue small
  have some : 0 < magnitude := Magnitude.pos_of_value_eq isValue
    (Nat.mul_pos positive (Nat.pow_pos (by decide)))
  apply Nat.le_antisymm
  · apply Magnitude.precision_le_of_reads (Numeral.length_ofNat_pos count)
    apply magnitude_eq_of_value finite
    rw [Magnitude.significant_eq isValue positive, value_mk, isValue, zpow_natCast, Nat.cast_mul,
      Nat.cast_pow, Nat.cast_ofNat]
  · exact length_le_of_reads isValue small trimmed
      (Magnitude.magnitude_significant_precision some finite)

end Decimal

namespace Binary64

/-- There is one double for each whole number. -/
theorem eq_ofDecimal_iff {number : Binary64} {count : ℕ} (small : count ≤ 2 ^ 53) :
    number = ofDecimal ⟨count, 0⟩ ↔ number.negative = false ∧ number.value = count := by
  have isValue := Decimal.value_magnitude_whole small
  constructor
  · rintro rfl
    exact ⟨rfl, isValue⟩
  · rintro ⟨positive, same⟩
    rw [value_of_not_negative positive, ← isValue] at same
    obtain ⟨negative, magnitude, _⟩ := number
    simp only [ofDecimal, mk.injEq]
    exact ⟨positive, Magnitude.value_injective same⟩

end Binary64

end ScriptLexer
