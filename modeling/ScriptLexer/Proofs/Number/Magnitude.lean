import Mathlib
import ScriptLexer.Number.Magnitude
import ScriptLexer.Proofs.Number.Rounding

namespace ScriptLexer.Magnitude

/-! Magnitudes by their values.  From one magnitude to the next it is a step of units, and
steps never get shorter, so that a value that is nearer to a magnitude than half a step up
and half a step down is rounded to it.
-/

variable {magnitude other : ℕ}

/-- How many units it takes from a magnitude to the next. -/
def step (magnitude : ℕ) : ℕ :=
  2 ^ (magnitude / fieldUnit - 1)

theorem step_pos (magnitude : ℕ) : 0 < step magnitude :=
  Nat.two_pow_pos _

theorem step_le_step (ordered : magnitude ≤ other) : step magnitude ≤ step other := by
  apply Nat.pow_le_pow_right (by decide)
  exact Nat.sub_le_sub_right (Nat.div_le_div_right ordered) 1

theorem units_zero : units 0 = 0 := rfl

theorem units_of_field_zero (first : magnitude / fieldUnit = 0) : units magnitude = magnitude := by
  have small : magnitude % fieldUnit = magnitude := by
    rw [Nat.mod_eq_of_lt]
    exact Nat.lt_of_div_eq_zero (by decide) first
  rw [units, if_pos first, small]

theorem units_of_field_pos (later : magnitude / fieldUnit ≠ 0) :
    units magnitude = (fieldUnit + magnitude % fieldUnit) * step magnitude :=
  if_neg later

theorem units_succ (magnitude : ℕ) : units (magnitude + 1) = units magnitude + step magnitude := by
  by_cases carries : magnitude % fieldUnit + 1 = fieldUnit
  · have field : (magnitude + 1) / fieldUnit = magnitude / fieldUnit + 1 := by
      unfold fieldUnit at *
      omega
    have fraction : (magnitude + 1) % fieldUnit = 0 := by
      unfold fieldUnit at *
      omega
    rw [units_of_field_pos (field ▸ Nat.succ_ne_zero _), fraction, step, field]
    by_cases first : magnitude / fieldUnit = 0
    · rw [units_of_field_zero first, step, first]
      unfold fieldUnit at *
      omega
    · have doubled : 2 ^ (magnitude / fieldUnit + 1 - 1) = 2 * step magnitude := by
        rw [step, ← Nat.pow_succ', Nat.add_sub_cancel, Nat.succ_eq_add_one,
          Nat.sub_add_cancel (Nat.pos_of_ne_zero first)]
      rw [units_of_field_pos first, doubled]
      have whole : 2 * fieldUnit = fieldUnit + magnitude % fieldUnit + 1 := by omega
      calc (fieldUnit + 0) * (2 * step magnitude) = 2 * fieldUnit * step magnitude := by ring
        _ = (fieldUnit + magnitude % fieldUnit) * step magnitude + step magnitude := by
          rw [whole, Nat.add_mul, Nat.one_mul]
  · have field : (magnitude + 1) / fieldUnit = magnitude / fieldUnit := by
      unfold fieldUnit at *
      omega
    have fraction : (magnitude + 1) % fieldUnit = magnitude % fieldUnit + 1 := by
      unfold fieldUnit at *
      omega
    by_cases first : magnitude / fieldUnit = 0
    · rw [units_of_field_zero (field.trans first), units_of_field_zero first, step, first,
        Nat.zero_sub, Nat.pow_zero]
    · rw [units_of_field_pos (field ▸ first), units_of_field_pos first, fraction, step, field,
        ← step]
      ring

theorem units_strictMono : StrictMono units :=
  strictMono_nat_of_lt_succ fun magnitude => by
    have positive := step_pos magnitude
    rw [units_succ]
    omega

theorem units_lt (magnitude : ℕ) : units magnitude < 2 * fieldUnit * step magnitude := by
  by_cases first : magnitude / fieldUnit = 0
  · have small := Nat.lt_of_div_eq_zero (by decide) first
    rw [units_of_field_zero first, step, first]
    unfold fieldUnit at *
    omega
  · have fraction : magnitude % fieldUnit < fieldUnit := Nat.mod_lt _ (by decide)
    rw [units_of_field_pos first]
    exact Nat.mul_lt_mul_of_pos_right (by omega) (step_pos magnitude)

theorem fieldUnit_mul_step_le (normal : fieldUnit ≤ magnitude) :
    fieldUnit * step magnitude ≤ units magnitude := by
  have later : magnitude / fieldUnit ≠ 0 := Nat.div_ne_zero_iff.mpr ⟨by decide, normal⟩
  rw [units_of_field_pos later]
  exact Nat.mul_le_mul_right _ (Nat.le_add_right _ _)

/-- A significand of up to one bit more than there is room for carries into the exponent. -/
theorem units_mul_fieldUnit_add {doublings significand : ℕ} (fits : significand ≤ 2 * fieldUnit)
    (normal : doublings = 0 ∨ fieldUnit ≤ significand) :
    units (doublings * fieldUnit + significand) = significand * 2 ^ doublings := by
  by_cases below : significand < fieldUnit
  · have none : doublings = 0 := normal.resolve_right (by omega)
    subst none
    rw [Nat.zero_mul, Nat.zero_add, units_of_field_zero (Nat.div_eq_of_lt below), Nat.pow_zero,
      Nat.mul_one]
  · by_cases carries : significand = 2 * fieldUnit
    · have place : doublings * fieldUnit + significand = (doublings + 2) * fieldUnit := by
        rw [carries]
        ring
      have field : (doublings * fieldUnit + significand) / fieldUnit = doublings + 2 := by
        rw [place, Nat.mul_div_cancel _ (by decide)]
      have fraction : (doublings * fieldUnit + significand) % fieldUnit = 0 := by
        rw [place, Nat.mul_mod_left]
      rw [units_of_field_pos (by omega), step, field, fraction, carries, Nat.add_zero,
        Nat.add_sub_assoc (by decide), Nat.pow_succ]
      ring
    · have field : (doublings * fieldUnit + significand) / fieldUnit = doublings + 1 := by
        unfold fieldUnit at *
        omega
      have fraction : fieldUnit + (doublings * fieldUnit + significand) % fieldUnit =
          significand := by
        unfold fieldUnit at *
        omega
      rw [units_of_field_pos (by omega), step, field, fraction, Nat.add_sub_cancel]

/-! Rounding to a magnitude. -/

variable {numerator denominator : ℕ}

/-- The power of two in which `nearest` counts. -/
def doublings (numerator denominator : ℕ) : ℕ :=
  Nat.log2 (numerator * unitsPerOne / denominator) - 52

/-- A quotient in that count, rounded. -/
def significand (numerator denominator : ℕ) : ℕ :=
  roundHalfEven (numerator * unitsPerOne) (denominator * 2 ^ doublings numerator denominator)

/-- What `nearest` gives where magnitudes have no bound. -/
def unbounded (numerator denominator : ℕ) : ℕ :=
  doublings numerator denominator * fieldUnit + significand numerator denominator

theorem nearest_eq (numerator denominator : ℕ) :
    nearest numerator denominator = min infinity (unbounded numerator denominator) := rfl

/-- Rounding sees the quotient and not the terms that it is written with. -/
theorem nearest_mul_mul {factor : ℕ} (positive : 0 < factor) (numerator denominator : ℕ) :
    nearest (factor * numerator) (factor * denominator) = nearest numerator denominator := by
  have sameDoublings : doublings (factor * numerator) (factor * denominator) =
      doublings numerator denominator := by
    rw [doublings, Nat.mul_assoc, Nat.mul_div_mul_left _ _ positive, ← doublings]
  have sameSignificand : significand (factor * numerator) (factor * denominator) =
      significand numerator denominator := by
    rw [significand, sameDoublings, Nat.mul_assoc, Nat.mul_assoc,
      roundHalfEven_mul_mul positive, ← significand]
  rw [nearest_eq, unbounded, sameDoublings, sameSignificand, ← unbounded, ← nearest_eq]

theorem div_lt_two_pow (numerator denominator : ℕ) :
    numerator * unitsPerOne / denominator <
      2 * fieldUnit * 2 ^ doublings numerator denominator := by
  have size : 2 * fieldUnit = 2 ^ 53 := by decide
  refine Nat.lt_of_lt_of_le Nat.lt_log2_self ?_
  rw [size, ← Nat.pow_add]
  apply Nat.pow_le_pow_right (by decide)
  unfold doublings
  omega

theorem two_pow_le_div (some : doublings numerator denominator ≠ 0) :
    fieldUnit * 2 ^ doublings numerator denominator ≤ numerator * unitsPerOne / denominator := by
  have size : fieldUnit = 2 ^ 52 := by decide
  have nonzero : numerator * unitsPerOne / denominator ≠ 0 := by
    intro zero
    rw [doublings, zero] at some
    exact some (by decide)
  refine Nat.le_trans ?_ (Nat.log2_self_le nonzero)
  rw [size, ← Nat.pow_add]
  apply Nat.pow_le_pow_right (by decide)
  unfold doublings at some ⊢
  omega

theorem significand_le (numerator denominator : ℕ) :
    significand numerator denominator ≤ 2 * fieldUnit := by
  refine Nat.le_trans (roundHalfEven_le_div_add_one _ _) ?_
  rw [← Nat.div_div_eq_div_mul, Nat.succ_le_iff, Nat.div_lt_iff_lt_mul (Nat.two_pow_pos _)]
  exact div_lt_two_pow numerator denominator

theorem fieldUnit_le_significand (some : doublings numerator denominator ≠ 0) :
    fieldUnit ≤ significand numerator denominator := by
  refine Nat.le_trans ?_ (div_le_roundHalfEven _ _)
  rw [← Nat.div_div_eq_div_mul, Nat.le_div_iff_mul_le (Nat.two_pow_pos _)]
  exact two_pow_le_div some

theorem units_unbounded (numerator denominator : ℕ) :
    units (unbounded numerator denominator) =
      significand numerator denominator * 2 ^ doublings numerator denominator := by
  apply units_mul_fieldUnit_add (significand_le numerator denominator)
  by_cases none : doublings numerator denominator = 0
  · exact .inl none
  · exact .inr (fieldUnit_le_significand none)

/-- Below the first magnitude with steps of `2 ^ power` units there is none of that value. -/
theorem two_pow_dvd_units_or_lt (power magnitude : ℕ) :
    2 ^ power ∣ units magnitude ∨ power ≠ 0 ∧ units magnitude < fieldUnit * 2 ^ power := by
  by_cases none : power = 0
  · exact .inl (none ▸ one_dvd _)
  · by_cases coarse : power ≤ magnitude / fieldUnit - 1
    · left
      rw [units_of_field_pos (by omega)]
      exact (Nat.pow_dvd_pow 2 coarse).mul_left _
    · right
      refine ⟨none, Nat.lt_of_lt_of_le (units_lt magnitude) ?_⟩
      have finer : step magnitude ≤ 2 ^ (power - 1) := by
        apply Nat.pow_le_pow_right (by decide)
        omega
      have doubled : 2 * 2 ^ (power - 1) = 2 ^ power := by
        rw [← Nat.pow_succ']
        congr 1
        omega
      calc 2 * fieldUnit * step magnitude ≤ 2 * fieldUnit * 2 ^ (power - 1) :=
          Nat.mul_le_mul_left _ finer
        _ = fieldUnit * 2 ^ power := by rw [← doubled]; ring

/-- Distances between multiples of a power and a quotient, counted in that power. -/
theorem abs_mul_sub_div_eq {power : ℕ} (size : 0 < power) (count numerator denominator : ℕ) :
    |((count * power : ℕ) : ℚ) - numerator / denominator| =
      |(count : ℚ) - numerator / (denominator * power : ℕ)| * power := by
  have sizeRat : (0 : ℚ) < power := Nat.cast_pos.mpr size
  have scaled : ((count * power : ℕ) : ℚ) - numerator / denominator =
      ((count : ℚ) - numerator / (denominator * power : ℕ)) * power := by
    push_cast
    field_simp
  rw [scaled, abs_mul, abs_of_pos sizeRat]

variable (positive : 0 < denominator)
include positive

theorem abs_units_unbounded_sub_le_multiple (numerator count : ℕ) :
    |(units (unbounded numerator denominator) : ℚ) - (numerator * unitsPerOne : ℕ) / denominator| ≤
      |((count * 2 ^ doublings numerator denominator : ℕ) : ℚ) -
        (numerator * unitsPerOne : ℕ) / denominator| := by
  have size := Nat.two_pow_pos (doublings numerator denominator)
  have nearer := abs_roundHalfEven_sub_le_abs_sub (numerator * unitsPerOne)
    (Nat.mul_pos positive size) count
  rw [units_unbounded, abs_mul_sub_div_eq size, abs_mul_sub_div_eq size]
  exact mul_le_mul_of_nonneg_right nearer (Nat.cast_nonneg _)

/-- A magnitude below those with such steps is further away than the first of them. -/
theorem abs_units_unbounded_sub_lt {other : ℕ} (numerator : ℕ)
    (some : doublings numerator denominator ≠ 0)
    (small : units other < fieldUnit * 2 ^ doublings numerator denominator) :
    |(units (unbounded numerator denominator) : ℚ) - (numerator * unitsPerOne : ℕ) / denominator| <
      |(units other : ℚ) - (numerator * unitsPerOne : ℕ) / denominator| := by
  refine (abs_units_unbounded_sub_le_multiple positive numerator fieldUnit).trans_lt ?_
  have below : ((fieldUnit * 2 ^ doublings numerator denominator : ℕ) : ℚ) ≤
      (numerator * unitsPerOne : ℕ) / denominator :=
    (Nat.cast_le.mpr (two_pow_le_div some)).trans Nat.cast_div_le
  have less : (units other : ℚ) <
      ((fieldUnit * 2 ^ doublings numerator denominator : ℕ) : ℚ) := by exact_mod_cast small
  rw [abs_of_nonpos (by linarith), abs_of_nonpos (by linarith)]
  linarith

theorem abs_units_unbounded_sub_le (numerator other : ℕ) :
    |(units (unbounded numerator denominator) : ℚ) - (numerator * unitsPerOne : ℕ) / denominator| ≤
      |(units other : ℚ) - (numerator * unitsPerOne : ℕ) / denominator| := by
  rcases two_pow_dvd_units_or_lt (doublings numerator denominator) other with
    ⟨count, multiple⟩ | ⟨some, small⟩
  · rw [multiple, Nat.mul_comm _ count]
    exact abs_units_unbounded_sub_le_multiple positive numerator count
  · exact (abs_units_unbounded_sub_lt positive numerator some small).le

theorem even_unbounded_of_tie (different : other ≠ unbounded numerator denominator)
    (tie : |(units other : ℚ) - (numerator * unitsPerOne : ℕ) / denominator| ≤
      |(units (unbounded numerator denominator) : ℚ) -
        (numerator * unitsPerOne : ℕ) / denominator|) :
    unbounded numerator denominator % 2 = 0 := by
  have size := Nat.two_pow_pos (doublings numerator denominator)
  have even : significand numerator denominator % 2 = 0 := by
    rcases two_pow_dvd_units_or_lt (doublings numerator denominator) other with
      ⟨count, multiple⟩ | ⟨some, small⟩
    · rw [Nat.mul_comm] at multiple
      have other : count ≠ significand numerator denominator := by
        intro same
        apply different
        apply units_strictMono.injective
        rw [units_unbounded, multiple, same]
      rw [multiple, units_unbounded, abs_mul_sub_div_eq size, abs_mul_sub_div_eq size] at tie
      exact even_roundHalfEven_of_tie (Nat.mul_pos positive size) other
        (le_of_mul_le_mul_right tie (Nat.cast_pos.mpr size))
    · exact absurd (abs_units_unbounded_sub_lt positive numerator some small) tie.not_gt
  rw [unbounded]
  unfold fieldUnit
  omega

/-- No magnitude is nearer to a quotient, where infinity is the first power of two that is out
of reach. -/
theorem abs_units_nearest_sub_le (numerator : ℕ) (reached : other ≤ infinity) :
    |(units (nearest numerator denominator) : ℚ) - (numerator * unitsPerOne : ℕ) / denominator| ≤
      |(units other : ℚ) - (numerator * unitsPerOne : ℕ) / denominator| := by
  have closest := abs_units_unbounded_sub_le positive numerator
  rw [nearest_eq]
  rcases Nat.le_total (unbounded numerator denominator) infinity with inside | beyond
  · rw [Nat.min_eq_right inside]
    exact closest other
  · rw [Nat.min_eq_left beyond]
    rcases Nat.eq_or_lt_of_le beyond with same | further
    · rw [same]
      exact closest other
    · have above : (units infinity : ℚ) < units (unbounded numerator denominator) := by
        exact_mod_cast units_strictMono further
      have below : (units other : ℚ) ≤ units infinity := by
        exact_mod_cast units_strictMono.monotone reached
      have past : (units infinity : ℚ) ≤ (numerator * unitsPerOne : ℕ) / denominator := by
        by_contra short
        have nearer := closest infinity
        rw [abs_of_pos (by linarith), abs_of_pos (by linarith)] at nearer
        linarith
      rw [abs_of_nonpos (by linarith), abs_of_nonpos (by linarith)]
      linarith

/-- If another magnitude is as near to a quotient as the one that it is rounded to, that one
is even. -/
theorem even_nearest_of_tie (different : other ≠ nearest numerator denominator)
    (tie : |(units other : ℚ) - (numerator * unitsPerOne : ℕ) / denominator| ≤
      |(units (nearest numerator denominator) : ℚ) -
        (numerator * unitsPerOne : ℕ) / denominator|) :
    nearest numerator denominator % 2 = 0 := by
  rw [nearest_eq] at *
  rcases Nat.le_total (unbounded numerator denominator) infinity with inside | beyond
  · rw [Nat.min_eq_right inside] at *
    exact even_unbounded_of_tie positive different tie
  · rw [Nat.min_eq_left beyond]
    decide

end ScriptLexer.Magnitude
