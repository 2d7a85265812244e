import Mathlib
import ScriptLexer.Number.Binary64
import ScriptLexer.Proofs.Number.Magnitude

namespace ScriptLexer

/-! The rational numbers that magnitudes and decimals stand for, and how near to a decimal its
magnitude is.
-/

namespace Magnitude

variable {magnitude other numerator denominator : ℕ}

/-- The number that a finite magnitude stands for.  That of infinity is the power of two which
is the first out of reach. -/
def value (magnitude : ℕ) : ℚ :=
  units magnitude / unitsPerOne

/-- How far it is from a magnitude to the next. -/
def gap (magnitude : ℕ) : ℚ :=
  step magnitude / unitsPerOne

theorem unitsPerOne_pos : (0 : ℚ) < unitsPerOne :=
  Nat.cast_pos.mpr (by decide +kernel)

theorem value_zero : value 0 = 0 := by
  rw [value, units_zero, Nat.cast_zero, zero_div]

theorem value_succ (magnitude : ℕ) : value (magnitude + 1) = value magnitude + gap magnitude := by
  rw [value, units_succ, Nat.cast_add, add_div, ← value, ← gap]

theorem value_eq_add_gap (positive : 0 < magnitude) :
    value magnitude = value (magnitude - 1) + gap (magnitude - 1) := by
  rw [← value_succ, Nat.sub_add_cancel positive]

theorem value_lt_value (ordered : magnitude < other) : value magnitude < value other := by
  rw [value, value, div_lt_div_iff_of_pos_right unitsPerOne_pos, Nat.cast_lt]
  exact units_strictMono ordered

theorem value_le_value (ordered : magnitude ≤ other) : value magnitude ≤ value other := by
  rcases Nat.eq_or_lt_of_le ordered with rfl | less
  · exact le_rfl
  · exact (value_lt_value less).le

theorem value_injective : Function.Injective value :=
  StrictMono.injective fun _ _ => value_lt_value

theorem value_nonneg (magnitude : ℕ) : 0 ≤ value magnitude :=
  value_zero.symm.trans_le (value_le_value (Nat.zero_le magnitude))

theorem gap_pos (magnitude : ℕ) : 0 < gap magnitude :=
  div_pos (Nat.cast_pos.mpr (step_pos magnitude)) unitsPerOne_pos

theorem gap_le_gap (ordered : magnitude ≤ other) : gap magnitude ≤ gap other := by
  rw [gap, gap, div_le_div_iff_of_pos_right unitsPerOne_pos, Nat.cast_le]
  exact step_le_step ordered

theorem value_lt_mul_gap (magnitude : ℕ) : value magnitude < 2 * fieldUnit * gap magnitude := by
  rw [value, gap, mul_div_assoc', div_lt_div_iff_of_pos_right unitsPerOne_pos]
  exact_mod_cast units_lt magnitude

theorem mul_gap_le_value (normal : fieldUnit ≤ magnitude) :
    fieldUnit * gap magnitude ≤ value magnitude := by
  rw [value, gap, mul_div_assoc', div_le_div_iff_of_pos_right unitsPerOne_pos]
  exact_mod_cast fieldUnit_mul_step_le normal

/-- The least number with all of its 53 bits. -/
theorem value_fieldUnit : value fieldUnit = 2 ^ (-1022 : ℤ) := by
  have size := unitsPerOne_pos
  have scale : unitsPerOne = units fieldUnit * 2 ^ 1022 := by decide +kernel
  have some : (0 : ℚ) < units fieldUnit := Nat.cast_pos.mpr (by decide)
  rw [value, scale, Nat.cast_mul, Nat.cast_pow, Nat.cast_ofNat, div_mul_cancel_left₀ some.ne',
    zpow_neg, ← zpow_natCast]
  rfl

/-- The greatest number. -/
theorem value_infinity_sub_one : value (infinity - 1) = (2 ^ 53 - 1) * 2 ^ (971 : ℤ) := by
  have size := unitsPerOne_pos
  have scale : units (infinity - 1) = (2 ^ 53 - 1) * 2 ^ 971 * unitsPerOne := by decide +kernel
  rw [value, scale, Nat.cast_mul, mul_div_cancel_right₀ _ size.ne', Nat.cast_mul, Nat.cast_pow]
  norm_num

theorem abs_value_sub_eq (magnitude numerator denominator : ℕ) :
    |value magnitude - numerator / denominator| =
      |(units magnitude : ℚ) - (numerator * unitsPerOne : ℕ) / denominator| / unitsPerOne := by
  have size := unitsPerOne_pos
  rw [value]
  generalize unitsPerOne = perOne at *
  rw [← abs_of_pos size, ← abs_div, abs_of_pos size]
  congr 1
  push_cast
  field_simp

/-- No magnitude is nearer to a quotient than the one that it is rounded to. -/
theorem abs_value_nearest_sub_le (positive : 0 < denominator) (numerator : ℕ)
    (reached : other ≤ infinity) :
    |value (nearest numerator denominator) - numerator / denominator| ≤
      |value other - numerator / denominator| := by
  rw [abs_value_sub_eq, abs_value_sub_eq, div_le_div_iff_of_pos_right unitsPerOne_pos]
  exact abs_units_nearest_sub_le positive numerator reached

/-- If one that is as near lies elsewhere, rounding was to an even magnitude. -/
theorem even_nearest_of_value_tie (positive : 0 < denominator)
    (different : other ≠ nearest numerator denominator)
    (tie : |value other - numerator / denominator| ≤
      |value (nearest numerator denominator) - numerator / denominator|) :
    nearest numerator denominator % 2 = 0 := by
  rw [abs_value_sub_eq, abs_value_sub_eq, div_le_div_iff_of_pos_right unitsPerOne_pos] at tie
  exact even_nearest_of_tie positive different tie

/-- What is nearer to the upper of two numbers lies above the middle of them. -/
theorem add_le_two_mul_of_nearer {lower upper exact : ℚ} (apart : lower < upper)
    (nearer : |upper - exact| ≤ |lower - exact|) : lower + upper ≤ 2 * exact := by
  rw [← sq_le_sq] at nearer
  nlinarith

theorem two_mul_le_add_of_nearer {lower upper exact : ℚ} (apart : lower < upper)
    (nearer : |lower - exact| ≤ |upper - exact|) : 2 * exact ≤ lower + upper := by
  rw [← sq_le_sq] at nearer
  nlinarith

/-- A quotient nearer than half a gap up or down is rounded to the magnitude. -/
theorem nearest_eq_of_near (positive : 0 < denominator) (finite : magnitude < infinity)
    (above : 2 * (numerator / denominator - value magnitude) < gap magnitude)
    (below : 2 * (value magnitude - numerator / denominator) < gap (magnitude - 1)) :
    nearest numerator denominator = magnitude := by
  have nearer := abs_value_nearest_sub_le positive numerator finite.le
  by_contra different
  rcases Nat.lt_or_gt_of_ne different with less | more
  · have middle := two_mul_le_add_of_nearer (value_lt_value less) nearer
    have lower := value_le_value (Nat.le_sub_one_of_lt less)
    have next := value_eq_add_gap (Nat.zero_lt_of_lt less)
    linarith
  · have middle := add_le_two_mul_of_nearer (value_lt_value more) nearer
    have upper := value_le_value (Nat.succ_le_of_lt more)
    have next := value_succ magnitude
    linarith

/-- A quotient is no more than half a gap above the magnitude that it is rounded to, -/
theorem two_mul_sub_value_nearest_le (positive : 0 < denominator)
    (finite : nearest numerator denominator < infinity) :
    2 * (numerator / denominator - value (nearest numerator denominator)) ≤
      gap (nearest numerator denominator) := by
  have middle := two_mul_le_add_of_nearer (value_lt_value (Nat.lt_add_one _))
    (abs_value_nearest_sub_le positive numerator (Nat.succ_le_of_lt finite))
  rw [value_succ] at middle
  linarith

/-- and no more than half the gap before it below. -/
theorem two_mul_value_nearest_sub_le (positive : 0 < denominator)
    (some : 0 < nearest numerator denominator) :
    2 * (value (nearest numerator denominator) - numerator / denominator) ≤
      gap (nearest numerator denominator - 1) := by
  have before := value_lt_value (Nat.sub_one_lt_of_lt some)
  have middle := add_le_two_mul_of_nearer before (abs_value_nearest_sub_le positive numerator
    ((Nat.sub_le _ 1).trans (nearest_le_infinity numerator denominator)))
  have next := value_eq_add_gap some
  linarith

/-- A quotient is no further than half a gap from the magnitude that it is rounded to. -/
theorem two_mul_abs_value_nearest_sub_le (positive : 0 < denominator)
    (finite : nearest numerator denominator < infinity) :
    2 * |value (nearest numerator denominator) - numerator / denominator| ≤
      gap (nearest numerator denominator) := by
  have above := two_mul_sub_value_nearest_le positive finite
  rcases abs_choice (value (nearest numerator denominator) - (numerator : ℚ) / denominator) with
    same | same
  · rw [same]
    rcases Nat.eq_zero_or_pos (nearest numerator denominator) with zero | some
    · have nonnegative : (0 : ℚ) ≤ numerator / denominator :=
        div_nonneg (Nat.cast_nonneg _) (Nat.cast_nonneg _)
      have gapPos := gap_pos (nearest numerator denominator)
      rw [zero, value_zero] at *
      linarith
    · exact (two_mul_value_nearest_sub_le positive some).trans (gap_le_gap (Nat.sub_le _ 1))
  · rw [same]
    linarith

end Magnitude

namespace Decimal

variable {decimal other : Decimal} {magnitude : ℕ}

/-- The number that a decimal stands for. -/
def value (decimal : Decimal) : ℚ :=
  decimal.digits * 10 ^ decimal.exponent

theorem ten_zpow (exponent : ℤ) :
    (10 : ℚ) ^ exponent = 10 ^ exponent.toNat / 10 ^ (-exponent).toNat := by
  rcases Int.le_total 0 exponent with nonnegative | nonpositive
  · have none : (-exponent).toNat = 0 := by omega
    rw [none, pow_zero, div_one, ← zpow_natCast, Int.toNat_of_nonneg nonnegative]
  · rw [Int.toNat_of_nonpos nonpositive, pow_zero, ← zpow_natCast,
      Int.toNat_of_nonneg (by omega), zpow_neg, one_div, inv_inv]

theorem value_nonneg (decimal : Decimal) : 0 ≤ decimal.value :=
  mul_nonneg (Nat.cast_nonneg _) (zpow_pos (by norm_num) _).le

theorem value_eq (decimal : Decimal) :
    decimal.value = decimal.numerator / decimal.denominator := by
  rw [value, ten_zpow, mul_div_assoc', numerator, denominator]
  push_cast [Nat.pow_eq]
  rfl

/-- What a decimal reads as depends on its value alone. -/
theorem magnitude_eq_of_value_eq (same : decimal.value = other.value) :
    decimal.magnitude = other.magnitude := by
  have size (number : Decimal) : (number.denominator : ℚ) ≠ 0 :=
    Nat.cast_ne_zero.mpr number.denominator_pos.ne'
  rw [value_eq, value_eq, div_eq_div_iff (size decimal) (size other)] at same
  have cross : other.denominator * decimal.numerator = decimal.denominator * other.numerator := by
    rw [Nat.mul_comm, Nat.mul_comm decimal.denominator]
    exact_mod_cast same
  rw [magnitude, magnitude, ← Magnitude.nearest_mul_mul other.denominator_pos, cross,
    Nat.mul_comm other.denominator, Magnitude.nearest_mul_mul decimal.denominator_pos]

theorem abs_value_magnitude_sub_le (decimal : Decimal) (reached : magnitude ≤ Magnitude.infinity) :
    |Magnitude.value decimal.magnitude - decimal.value| ≤
      |Magnitude.value magnitude - decimal.value| := by
  rw [value_eq]
  exact Magnitude.abs_value_nearest_sub_le decimal.denominator_pos _ reached

theorem even_magnitude_of_tie (different : magnitude ≠ decimal.magnitude)
    (tie : |Magnitude.value magnitude - decimal.value| ≤
      |Magnitude.value decimal.magnitude - decimal.value|) :
    decimal.magnitude % 2 = 0 := by
  rw [value_eq] at tie
  exact Magnitude.even_nearest_of_value_tie decimal.denominator_pos different tie

theorem le_magnitude (reached : magnitude ≤ Magnitude.infinity)
    (above : Magnitude.value magnitude ≤ decimal.value) : magnitude ≤ decimal.magnitude := by
  by_contra less
  have ordered := Magnitude.value_lt_value (not_le.mp less)
  have closest := decimal.abs_value_magnitude_sub_le reached
  rw [abs_of_nonpos (by linarith), abs_of_nonpos (by linarith)] at closest
  linarith

theorem magnitude_le (reached : magnitude ≤ Magnitude.infinity)
    (below : decimal.value ≤ Magnitude.value magnitude) : decimal.magnitude ≤ magnitude := by
  by_contra more
  have ordered := Magnitude.value_lt_value (not_le.mp more)
  have closest := decimal.abs_value_magnitude_sub_le reached
  rw [abs_of_nonneg (by linarith), abs_of_nonneg (by linarith)] at closest
  linarith

theorem magnitude_eq_of_near (finite : magnitude < Magnitude.infinity)
    (above : 2 * (decimal.value - Magnitude.value magnitude) < Magnitude.gap magnitude)
    (below : 2 * (Magnitude.value magnitude - decimal.value) < Magnitude.gap (magnitude - 1)) :
    decimal.magnitude = magnitude := by
  rw [value_eq] at above below
  exact Magnitude.nearest_eq_of_near decimal.denominator_pos finite above below

theorem two_mul_sub_value_le (finite : decimal.magnitude < Magnitude.infinity) :
    2 * (decimal.value - Magnitude.value decimal.magnitude) ≤
      Magnitude.gap decimal.magnitude := by
  rw [value_eq]
  exact Magnitude.two_mul_sub_value_nearest_le decimal.denominator_pos finite

theorem two_mul_value_sub_le (positive : 0 < decimal.magnitude) :
    2 * (Magnitude.value decimal.magnitude - decimal.value) ≤
      Magnitude.gap (decimal.magnitude - 1) := by
  rw [value_eq]
  exact Magnitude.two_mul_value_nearest_sub_le decimal.denominator_pos positive

theorem two_mul_abs_value_sub_le (finite : decimal.magnitude < Magnitude.infinity) :
    2 * |Magnitude.value decimal.magnitude - decimal.value| ≤
      Magnitude.gap decimal.magnitude := by
  rw [value_eq]
  exact Magnitude.two_mul_abs_value_nearest_sub_le decimal.denominator_pos finite

end Decimal

end ScriptLexer
