import Mathlib
import ScriptLexer.Proofs.Number.Precision

namespace ScriptLexer

/-! Decimals of at most fifteen digits.  A double with all of its bits lies so near to the
decimal that it was read from that no other multiple of the fifteenth place is as near.  So the
precision is found within fifteen digits, and rounding to it gives the decimal back.
-/

namespace Magnitude

variable {magnitude : ℕ}

/-- The exponent of the last of fifteen significant digits. -/
def fifteenthPlace (magnitude : ℕ) : ℤ :=
  leadingExponent magnitude - 14

theorem ten_zpow_leadingExponent (magnitude : ℕ) :
    (10 : ℚ) ^ leadingExponent magnitude = 10 ^ 14 * 10 ^ fifteenthPlace magnitude := by
  rw [fifteenthPlace, ← zpow_natCast, ← zpow_add₀ (by norm_num)]
  congr 1
  push_cast
  ring

/-- The fifteenth place is coarser than the gaps between doubles. -/
theorem gap_lt_fifteenthPlace (normal : fieldUnit ≤ magnitude) :
    gap magnitude < 10 ^ fifteenthPlace magnitude := by
  have positive : 0 < magnitude := Nat.lt_of_lt_of_le (by decide) normal
  have upper := (value_bounds positive).2
  have lower := mul_gap_le_value normal
  have size : (10 : ℚ) ^ 15 < fieldUnit := by norm_num [fieldUnit]
  have scaled := mul_lt_mul_of_pos_right size (gap_pos magnitude)
  rw [zpow_add₀ (by norm_num), zpow_one, ten_zpow_leadingExponent] at upper
  linarith

end Magnitude

namespace Decimal

open Magnitude

variable {decimal : Decimal}

theorem exists_count_of_le {place : ℤ} (coarse : place ≤ decimal.exponent) :
    ∃ count : ℕ, decimal.value = count * 10 ^ place := by
  refine ⟨decimal.digits * 10 ^ (decimal.exponent - place).toNat, ?_⟩
  have split : decimal.exponent = ((decimal.exponent - place).toNat : ℤ) + place := by omega
  rw [value, Nat.cast_mul, Nat.cast_pow, Nat.cast_ofNat, mul_assoc, ← zpow_natCast,
    ← zpow_add₀ (by norm_num), ← split]

/-- Multiples of a power of ten that are nearer to each other than the power are equal. -/
theorem value_eq_of_near {place : ℤ} {other : Decimal} (coarse : place ≤ decimal.exponent)
    (otherCoarse : place ≤ other.exponent) (near : |decimal.value - other.value| < 10 ^ place) :
    decimal.value = other.value := by
  have power : (0 : ℚ) < 10 ^ place := zpow_pos (by norm_num) _
  obtain ⟨count, isCount⟩ := exists_count_of_le coarse
  obtain ⟨otherCount, isOther⟩ := exists_count_of_le otherCoarse
  rw [isCount, isOther, ← sub_mul, abs_mul, abs_of_pos power, mul_lt_iff_lt_one_left power] at near
  have whole : |(count : ℤ) - otherCount| < 1 := by exact_mod_cast near
  have same : count = otherCount := by
    rw [Int.abs_lt_one_iff] at whole
    omega
  rw [isCount, isOther, same]

variable (few : decimal.digits < 10 ^ 15) (normal : fieldUnit ≤ decimal.magnitude)
  (finite : decimal.magnitude < infinity)

include few normal finite

/-- The last of at most fifteen digits stands no lower than at the fifteenth place of the double,
also where rounding takes the double into another decade. -/
theorem fifteenthPlace_le : fifteenthPlace decimal.magnitude ≤ decimal.exponent := by
  by_contra fine
  have positive : 0 < decimal.magnitude := Nat.lt_of_lt_of_le (by decide) normal
  set place := fifteenthPlace decimal.magnitude - 1 with isPlace
  have power : (0 : ℚ) < 10 ^ place := zpow_pos (by norm_num) _
  have below : decimal.value ≤ (10 ^ 15 - 1) * 10 ^ place := by
    have digits : (decimal.digits : ℚ) ≤ 10 ^ 15 - 1 := by
      rw [le_sub_iff_add_le]
      exact_mod_cast few
    calc decimal.value = decimal.digits * 10 ^ decimal.exponent := rfl
      _ ≤ decimal.digits * 10 ^ place :=
        mul_le_mul_of_nonneg_left (zpow_le_zpow_right₀ (by norm_num) (by omega))
          (Nat.cast_nonneg _)
      _ ≤ (10 ^ 15 - 1) * 10 ^ place := mul_le_mul_of_nonneg_right digits power.le
  have lead : 10 ^ 15 * 10 ^ place ≤ Magnitude.value decimal.magnitude := by
    have lower := (value_bounds positive).1
    have split : fifteenthPlace decimal.magnitude = place + 1 := by omega
    rw [ten_zpow_leadingExponent, split, zpow_add₀ (by norm_num), zpow_one] at lower
    linarith
  -- the gap between the two is too small for a double of this size
  have near := two_mul_abs_value_sub_le finite
  have above := le_abs_self (Magnitude.value decimal.magnitude - decimal.value)
  have small := mul_gap_le_value normal
  have size : (fieldUnit : ℚ) = 2 ^ 52 := by norm_num [fieldUnit]
  rw [size] at small
  linarith

/-- Fifteen digits of the double are the digits that it was read from. -/
theorem value_roundedAt_fifteenthPlace :
    (roundedAt decimal.magnitude (fifteenthPlace decimal.magnitude)).value = decimal.value := by
  obtain ⟨count, isCount⟩ := exists_count_of_le (fifteenthPlace_le few normal finite)
  have near := two_mul_abs_value_sub_le finite
  rw [abs_sub_comm, isCount] at near
  rw [isCount]
  exact value_roundedAt_of_near (near.trans_lt (gap_lt_fifteenthPlace normal))

theorem precision_le_fifteen : precision decimal.magnitude ≤ 15 := by
  by_contra more
  apply significant_ne_of_lt_precision (by decide) (not_le.mp more)
  have place : leadingExponent decimal.magnitude + 1 - (15 : ℕ) =
      fifteenthPlace decimal.magnitude := by
    rw [fifteenthPlace]
    omega
  rw [significant, place]
  exact magnitude_eq_of_value_eq (value_roundedAt_fifteenthPlace few normal finite)

/-- The precision may be found with fewer digits, but the value is the same. -/
theorem value_significant_precision :
    (significant decimal.magnitude (precision decimal.magnitude)).value = decimal.value := by
  have positive : 0 < decimal.magnitude := Nat.lt_of_lt_of_le (by decide) normal
  set shown := significant decimal.magnitude (precision decimal.magnitude)
  have reads : shown.magnitude = decimal.magnitude :=
    magnitude_significant_precision positive finite
  have shownNear := two_mul_abs_value_sub_le (reads.trans_lt finite)
  have near := two_mul_abs_value_sub_le finite
  have gap := gap_lt_fifteenthPlace normal
  have coarse : fifteenthPlace decimal.magnitude ≤ shown.exponent := by
    have digits := precision_le_fifteen few normal finite
    change fifteenthPlace decimal.magnitude ≤
      leadingExponent decimal.magnitude + 1 - precision decimal.magnitude
    rw [fifteenthPlace]
    omega
  apply value_eq_of_near coarse (fifteenthPlace_le few normal finite)
  rw [reads, abs_sub_comm] at shownNear
  have triangle := abs_sub_le shown.value (Magnitude.value decimal.magnitude) decimal.value
  linarith

end Decimal

end ScriptLexer
