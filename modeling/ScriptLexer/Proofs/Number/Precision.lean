import Mathlib
import ScriptLexer.Number.Precision
import ScriptLexer.Proofs.Number.Value
import ScriptLexer.Proofs.Text.Numeral

namespace ScriptLexer.Magnitude

/-! Values rounded to significant digits.  Seventeen of them always tell a magnitude from its
neighbours, so that the search for a precision never ends without one that reads back.
-/

variable {magnitude : ℕ}

/-- The length of the whole part of a quotient, shifted by some places, tells between which
powers of ten the quotient lies. -/
theorem zpow_length_bounds {numerator denominator places : ℕ} (positive : 0 < denominator)
    (large : denominator ≤ numerator * Nat.pow 10 places) :
    (10 : ℚ) ^ (((Numeral.ofNat (numerator * Nat.pow 10 places / denominator)).length : ℤ) -
        (places + 1)) ≤ numerator / denominator ∧
      (numerator : ℚ) / denominator <
        10 ^ (((Numeral.ofNat (numerator * Nat.pow 10 places / denominator)).length : ℤ) -
          places) := by
  have size : (0 : ℚ) < denominator := Nat.cast_pos.mpr positive
  have shift : (0 : ℚ) < 10 ^ places := by positivity
  have some := Numeral.length_ofNat_pos (numerator * Nat.pow 10 places / denominator)
  obtain ⟨lower, upper⟩ := Numeral.pow_le_and_lt_pow (Nat.div_pos large positive)
  set length := (Numeral.ofNat (numerator * Nat.pow 10 places / denominator)).length
  have lowerRat : (10 : ℚ) ^ (length - 1) ≤ numerator * 10 ^ places / denominator := by
    have whole := (Nat.cast_le (α := ℚ).mpr lower).trans Nat.cast_div_le
    push_cast [Nat.pow_eq] at whole
    exact whole
  have upperRat : (numerator * 10 ^ places / denominator : ℚ) < 10 ^ length := by
    have whole : numerator * 10 ^ places < 10 ^ length * denominator := by
      rwa [← Nat.div_lt_iff_lt_mul positive]
    rw [div_lt_iff₀ size]
    exact_mod_cast whole
  constructor
  · have split : (length : ℤ) - (places + 1) = (length - 1 : ℕ) - (places : ℤ) := by omega
    rw [split, zpow_sub₀ (by norm_num), zpow_natCast, zpow_natCast, div_le_iff₀ shift]
    calc (10 : ℚ) ^ (length - 1) ≤ numerator * 10 ^ places / denominator := lowerRat
      _ = numerator / denominator * 10 ^ places := by ring
  · rw [zpow_sub₀ (by norm_num), zpow_natCast, zpow_natCast, lt_div_iff₀ shift]
    calc (numerator : ℚ) / denominator * 10 ^ places =
          numerator * 10 ^ places / denominator := by ring
      _ < 10 ^ length := upperRat

/-- The first significant digit of a value stands at the place of its leading exponent. -/
theorem value_bounds (positive : 0 < magnitude) :
    (10 : ℚ) ^ leadingExponent magnitude ≤ value magnitude ∧
      value magnitude < 10 ^ (leadingExponent magnitude + 1) := by
  have perOne : 0 < unitsPerOne := by decide +kernel
  have enough : unitsPerOne ≤ Nat.pow 10 324 := by decide +kernel
  have some : 0 < units magnitude := units_zero ▸ units_strictMono positive
  have large : unitsPerOne ≤ units magnitude * Nat.pow 10 324 :=
    enough.trans (Nat.le_mul_of_pos_left _ some)
  obtain ⟨lower, upper⟩ := zpow_length_bounds perOne large
  have first : leadingExponent magnitude + 1 =
      ((Numeral.ofNat (units magnitude * Nat.pow 10 324 / unitsPerOne)).length : ℤ) -
        (324 : ℕ) := by
    rw [leadingExponent]
    push_cast
    ring
  have second : leadingExponent magnitude =
      ((Numeral.ofNat (units magnitude * Nat.pow 10 324 / unitsPerOne)).length : ℤ) -
        ((324 : ℕ) + 1) := by
    rw [leadingExponent]
    push_cast
    ring
  rw [first]
  constructor
  · rw [second]
    exact lower
  · exact upper

/-! Rounding to a multiple of a power of ten. -/

theorem quotient_eq (magnitude : ℕ) (exponent : ℤ) :
    ((units magnitude * Nat.pow 10 (-exponent).toNat : ℕ) : ℚ) /
        (unitsPerOne * Nat.pow 10 exponent.toNat : ℕ) =
      value magnitude / 10 ^ exponent := by
  have size := unitsPerOne_pos
  rw [value, Decimal.ten_zpow]
  generalize unitsPerOne = perOne at *
  push_cast [Nat.pow_eq]
  field_simp

theorem abs_value_roundedAt_sub_eq (magnitude : ℕ) (exponent : ℤ) (count : ℕ) :
    |(count : ℚ) * 10 ^ exponent - value magnitude| =
      |(count : ℚ) - value magnitude / 10 ^ exponent| * 10 ^ exponent := by
  have power : (0 : ℚ) < 10 ^ exponent := zpow_pos (by norm_num) _
  have scaled : (count : ℚ) * 10 ^ exponent - value magnitude =
      (count - value magnitude / 10 ^ exponent) * 10 ^ exponent := by
    rw [sub_mul, div_mul_cancel₀ _ power.ne']
  rw [scaled, abs_mul, abs_of_pos power]

theorem denominator_pos (exponent : ℤ) : 0 < unitsPerOne * Nat.pow 10 exponent.toNat :=
  Nat.mul_pos (by decide +kernel) (Nat.pow_pos (by decide))

theorem two_mul_abs_value_roundedAt_sub_le (magnitude : ℕ) (exponent : ℤ) :
    2 * |(roundedAt magnitude exponent).value - value magnitude| ≤ 10 ^ exponent := by
  have power : (0 : ℚ) < 10 ^ exponent := zpow_pos (by norm_num) _
  have half := abs_roundHalfEven_sub_le (units magnitude * Nat.pow 10 (-exponent).toNat)
    (denominator_pos exponent)
  rw [quotient_eq] at half
  rw [Decimal.value, roundedAt, abs_value_roundedAt_sub_eq]
  have scaled := mul_le_mul_of_nonneg_right half power.le
  linarith

/-- A multiple nearer than half of the power is the one that the value is rounded to. -/
theorem value_roundedAt_of_near {exponent : ℤ} {count : ℕ}
    (near : 2 * |(count : ℚ) * 10 ^ exponent - value magnitude| < 10 ^ exponent) :
    (roundedAt magnitude exponent).value = count * 10 ^ exponent := by
  have power : (0 : ℚ) < 10 ^ exponent := zpow_pos (by norm_num) _
  rw [abs_value_roundedAt_sub_eq] at near
  have close : |(count : ℚ) - value magnitude / 10 ^ exponent| < 1 / 2 := by
    by_contra far
    rw [not_lt] at far
    have scaled := mul_le_mul_of_nonneg_right far power.le
    linarith
  rw [← quotient_eq] at close
  have rounded := roundHalfEven_eq_of_abs_sub_lt (denominator_pos exponent) close
  rw [Decimal.value, roundedAt, rounded]

/-- Seventeen digits read back. -/
theorem magnitude_significant_maxPrecision (positive : 0 < magnitude)
    (finite : magnitude < infinity) :
    (significant magnitude maxPrecision).magnitude = magnitude := by
  have rounding := two_mul_abs_value_roundedAt_sub_le magnitude
    (leadingExponent magnitude + 1 - maxPrecision)
  have above := le_abs_self ((significant magnitude maxPrecision).value - value magnitude)
  have below := neg_abs_le ((significant magnitude maxPrecision).value - value magnitude)
  have wide := gap_le_gap (Nat.sub_le magnitude 1)
  -- the last of seventeen places is finer than the gap below
  have fine : (10 : ℚ) ^ (leadingExponent magnitude + 1 - (maxPrecision : ℤ)) <
      gap (magnitude - 1) := by
    have lead := (value_bounds positive).1
    have upper := value_lt_mul_gap (magnitude - 1)
    have next := value_succ (magnitude - 1)
    rw [Nat.sub_add_cancel positive] at next
    have digits : (2 * fieldUnit + 1 : ℚ) ≤ 10 ^ 16 := by norm_num [fieldUnit]
    have split : (10 : ℚ) ^ leadingExponent magnitude =
        10 ^ 16 * 10 ^ (leadingExponent magnitude + 1 - (maxPrecision : ℤ)) := by
      rw [← zpow_natCast, ← zpow_add₀ (by norm_num)]
      congr 1
      rw [maxPrecision]
      push_cast
      ring
    have scaled := mul_le_mul_of_nonneg_right digits (gap_pos (magnitude - 1)).le
    linarith
  apply Decimal.magnitude_eq_of_near finite
  · rw [significant] at *
    linarith
  · rw [significant] at *
    linarith

/-- The precision of a magnitude reads back. -/
theorem magnitude_significant_precision (positive : 0 < magnitude) (finite : magnitude < infinity) :
    (significant magnitude (precision magnitude)).magnitude = magnitude := by
  rcases Nat.lt_or_eq_of_le (precision_bounds magnitude).2 with found | last
  · exact significant_precision found
  · rw [last]
    exact magnitude_significant_maxPrecision positive finite

end ScriptLexer.Magnitude
