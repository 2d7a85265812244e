import Mathlib
import ScriptLexer.Proofs.Number.Interval
import ScriptLexer.Proofs.Number.Exact

namespace ScriptLexer

/-! How many digits it takes to be read as a magnitude, and how many the search for a precision
finds.  The search tries the nearest decimal of each length only.  Where the interval of a
magnitude reaches as far down as up that is enough.  Above a power of two the gaps are twice as
wide as below it, so that a decimal above it may be read as the power although the nearest
decimal, which is below, is not; one more digit is then enough.
-/

namespace Decimal

theorem value_mk (digits : ℕ) (exponent : ℤ) :
    (⟨digits, exponent⟩ : Decimal).value = digits * 10 ^ exponent := rfl

theorem value_tenPower (count : ℕ) (exponent : ℤ) :
    (⟨10 ^ count, exponent⟩ : Decimal).value = 10 ^ (count + exponent) := by
  rw [value_mk, Nat.cast_pow, Nat.cast_ofNat, ← zpow_natCast, ← zpow_add₀ (by norm_num)]

end Decimal

namespace Magnitude

variable {magnitude : ℕ}

/-- The gap on both sides of a magnitude is the same unless the exponent field changes there. -/
theorem gap_sub_one_eq (even : magnitude % fieldUnit ≠ 0 ∨ magnitude < 2 * fieldUnit) :
    gap (magnitude - 1) = gap magnitude := by
  have same : (magnitude - 1) / fieldUnit - 1 = magnitude / fieldUnit - 1 := by
    unfold fieldUnit at *
    omega
  rw [gap, gap, step, step, same]

/-- The gap before is at least half as wide. -/
theorem gap_le_two_mul_gap_sub_one (magnitude : ℕ) : gap magnitude ≤ 2 * gap (magnitude - 1) := by
  have doubled : step magnitude ≤ 2 * step (magnitude - 1) := by
    rw [step, step, ← Nat.pow_succ']
    apply Nat.pow_le_pow_right (by decide)
    unfold fieldUnit
    omega
  rw [gap, gap, mul_div_assoc', div_le_div_iff_of_pos_right unitsPerOne_pos]
  exact_mod_cast doubled

/-- No multiple of the power of ten is nearer to the value than the one it is rounded to. -/
theorem abs_value_roundedAt_sub_le (magnitude : ℕ) (exponent : ℤ) (count : ℕ) :
    |(roundedAt magnitude exponent).value - value magnitude| ≤
      |(⟨count, exponent⟩ : Decimal).value - value magnitude| := by
  have power : (0 : ℚ) < 10 ^ exponent := zpow_pos (by norm_num) _
  have nearer := abs_roundHalfEven_sub_le_abs_sub
    (units magnitude * Nat.pow 10 (-exponent).toNat) (denominator_pos exponent) count
  rw [quotient_eq] at nearer
  rw [Decimal.value, Decimal.value, roundedAt, abs_value_roundedAt_sub_eq,
    abs_value_roundedAt_sub_eq]
  exact mul_le_mul_of_nonneg_right nearer power.le

theorem precision_le_of_reads {count : ℕ} (some : 1 ≤ count)
    (reads : (significant magnitude count).magnitude = magnitude) :
    precision magnitude ≤ count := by
  by_contra fewer
  exact significant_ne_of_lt_precision some (not_le.mp fewer) reads

/-- Rounding to a number of digits gives no more of them, or the power of ten behind them. -/
theorem digits_significant_le (positive : 0 < magnitude) (count : ℕ) :
    (significant magnitude count).digits ≤ 10 ^ count := by
  have upper := (value_bounds positive).2
  have nearer := abs_value_roundedAt_sub_le magnitude (leadingExponent magnitude + 1 - count)
    (10 ^ count)
  rw [← significant, Decimal.value_tenPower, add_sub_cancel] at nearer
  by_contra more
  have further : (10 : ℚ) ^ (leadingExponent magnitude + 1) <
      (significant magnitude count).value := by
    have power : (0 : ℚ) < 10 ^ (significant magnitude count).exponent :=
      zpow_pos (by norm_num) _
    have digits : ((10 ^ count : ℕ) : ℚ) < (significant magnitude count).digits :=
      Nat.cast_lt.mpr (not_le.mp more)
    have scaled := mul_lt_mul_of_pos_right digits power
    rwa [← Decimal.value_mk, Decimal.value_tenPower, significant, roundedAt,
      add_sub_cancel] at scaled
  rw [abs_of_nonneg (by linarith), abs_of_nonneg (by linarith)] at nearer
  linarith

end Magnitude

namespace Decimal

open Magnitude (fieldUnit gap gap_pos gap_sub_one_eq infinity leadingExponent precision roundedAt
  significant)

variable {decimal other : Decimal} {magnitude : ℕ}

/-- A decimal of `count` digits that is not below the leading place has none behind the last
place of `count` significant digits. -/
theorem place_le_exponent {lead : ℤ} {count : ℕ} (few : decimal.digits < 10 ^ count)
    (large : 10 ^ lead ≤ decimal.value) : lead + 1 - count ≤ decimal.exponent := by
  have power : (0 : ℚ) < 10 ^ decimal.exponent := zpow_pos (by norm_num) _
  have digits : (decimal.digits : ℚ) < 10 ^ (count : ℤ) := by exact_mod_cast few
  have bound : (10 : ℚ) ^ lead < 10 ^ (count + decimal.exponent) := by
    rw [zpow_add₀ (by norm_num)]
    exact large.trans_lt (mul_lt_mul_of_pos_right digits power)
  rw [zpow_lt_zpow_iff_right₀ (by norm_num)] at bound
  omega

theorem magnitude_of_digits_zero (none : decimal.digits = 0) : decimal.magnitude = 0 := by
  rw [magnitude, numerator, none, Nat.zero_mul, Magnitude.nearest_zero]

/-- Of the decimals of a length that are read as a magnitude, one has its last digit where the
value rounded to that length has it. -/
theorem exists_at_place {lead : ℤ} {count : ℕ} (leads : 10 ^ lead ≤ Magnitude.value magnitude)
    (some : 1 ≤ count) (few : decimal.digits < 10 ^ count) (reads : decimal.magnitude = magnitude) :
    ∃ digits : ℕ, (⟨digits, lead + 1 - count⟩ : Decimal).magnitude = magnitude ∧
      (decimal.value ≤ Magnitude.value magnitude →
        (⟨digits, lead + 1 - count⟩ : Decimal).value ≤ Magnitude.value magnitude) := by
  by_cases large : (10 : ℚ) ^ lead ≤ decimal.value
  · obtain ⟨digits, same⟩ := exists_count_of_le (place_le_exponent few large)
    rw [← value_mk] at same
    refine ⟨digits, ?_, ?_⟩
    · rw [← magnitude_eq_of_value_eq same, reads]
    · rw [← same]
      exact id
  · -- the power of ten stands between the decimal and the value
    have below : (⟨10 ^ (count - 1), lead + 1 - count⟩ : Decimal).value = 10 ^ lead := by
      have place : ((count - 1 : ℕ) : ℤ) + (lead + 1 - count) = lead := by omega
      exact (value_tenPower _ _).trans (congrArg _ place)
    refine ⟨10 ^ (count - 1), magnitude_eq_of_between reads (.inl ?_), ?_⟩
    · rw [below]
      exact ⟨(not_le.mp large).le, leads⟩
    · rw [below]
      exact fun _ => leads

/-- What is no further from a magnitude than a decimal that is read as it is read as it, too, if
that decimal is not above it or the gaps on both sides are the same. -/
theorem magnitude_eq_of_no_further (positive : 0 < magnitude) (finite : magnitude < infinity)
    (reads : decimal.magnitude = magnitude)
    (nearer : |other.value - Magnitude.value magnitude| ≤
      |decimal.value - Magnitude.value magnitude|)
    (fair : gap (magnitude - 1) = gap magnitude ∨ decimal.value ≤ Magnitude.value magnitude) :
    other.magnitude = magnitude := by
  obtain ⟨above, below, ends⟩ := (magnitude_eq_iff positive finite).mp reads
  have narrower := Magnitude.gap_le_gap (Nat.sub_le magnitude 1)
  have upperNearer := (le_abs_self _).trans nearer
  have lowerNearer := (neg_le_abs _).trans nearer
  apply (magnitude_eq_iff positive finite).mpr
  rcases le_total decimal.value (Magnitude.value magnitude) with low | high
  · rw [abs_of_nonpos (by linarith)] at upperNearer lowerNearer
    refine ⟨by linarith, by linarith, ?_⟩
    intro atEnd
    apply ends
    right
    rcases atEnd with upper | lower <;> linarith
  · rw [abs_of_nonneg (by linarith)] at upperNearer lowerNearer
    -- above the magnitude the narrower gap is the limit, unless nothing is left of the distance
    have wide : decimal.value = Magnitude.value magnitude ∨ gap (magnitude - 1) = gap magnitude :=
      fair.symm.imp_left fun low => le_antisymm low high
    have gapPos := gap_pos (magnitude - 1)
    refine ⟨by linarith, by rcases wide with same | same <;> linarith, ?_⟩
    intro atEnd
    apply ends
    left
    rcases wide with same | same <;> rcases atEnd with upper | lower <;> linarith

variable {count : ℕ} (positive : 0 < magnitude) (finite : magnitude < infinity)
  (few : decimal.digits < 10 ^ count) (reads : decimal.magnitude = magnitude)

include positive few reads in
theorem one_le_of_reads : 1 ≤ count := by
  by_contra none
  have noDigits : decimal.digits = 0 := by
    rw [not_le, Nat.lt_one_iff] at none
    rw [none] at few
    exact Nat.lt_one_iff.mp few
  rw [← reads, magnitude_of_digits_zero noDigits] at positive
  exact Nat.lt_irrefl 0 positive

include positive finite few reads

/-- The precision is no greater than the number of digits of any decimal that is read as the
magnitude, if that is not above it or the gaps on both sides are the same. -/
theorem precision_le
    (fair : gap (magnitude - 1) = gap magnitude ∨ decimal.value ≤ Magnitude.value magnitude) :
    precision magnitude ≤ count := by
  have some := one_le_of_reads positive few reads
  obtain ⟨digits, atPlace, keeps⟩ :=
    exists_at_place (Magnitude.value_bounds positive).1 some few reads
  apply Magnitude.precision_le_of_reads some
  exact magnitude_eq_of_no_further positive finite atPlace
    (Magnitude.abs_value_roundedAt_sub_le _ _ digits) (fair.imp_right keeps)

/-- If a decimal is read as the magnitude and the nearest of its length is not, the last place
of these is finer than the gap. -/
theorem place_le_gap (differs : (significant magnitude count).magnitude ≠ magnitude) :
    10 ^ (leadingExponent magnitude + 1 - (count : ℤ)) ≤ gap magnitude := by
  have some := one_le_of_reads positive few reads
  obtain ⟨digits, atPlace, _⟩ :=
    exists_at_place (Magnitude.value_bounds positive).1 some few reads
  set place := leadingExponent magnitude + 1 - (count : ℤ) with isPlace
  have nearer := Magnitude.abs_value_roundedAt_sub_le magnitude place digits
  have near := two_mul_abs_value_sub_le (atPlace.trans_lt finite)
  rw [atPlace, abs_sub_comm] at near
  by_contra coarse
  apply differs
  have same : (roundedAt magnitude place).value = (⟨digits, place⟩ : Decimal).value := by
    apply value_eq_of_near (le_refl place) (le_refl place)
    have triangle := abs_sub_le (roundedAt magnitude place).value (Magnitude.value magnitude)
      (⟨digits, place⟩ : Decimal).value
    rw [abs_sub_comm (Magnitude.value magnitude)] at triangle
    linarith
  rw [significant, ← isPlace, magnitude_eq_of_value_eq same, atPlace]

/-- One digit more than that of any decimal that is read as the magnitude is always enough. -/
theorem precision_le_succ : precision magnitude ≤ count + 1 := by
  by_cases same : (significant magnitude count).magnitude = magnitude
  · exact (Magnitude.precision_le_of_reads (one_le_of_reads positive few reads) same).trans
      (Nat.le_succ count)
  · apply Magnitude.precision_le_of_reads (Nat.succ_pos count)
    have fine := place_le_gap positive finite few reads same
    have rounding := Magnitude.two_mul_abs_value_roundedAt_sub_le magnitude
      (leadingExponent magnitude + 1 - (count + 1 : ℕ))
    have place : leadingExponent magnitude + 1 - (count : ℤ) =
        leadingExponent magnitude + 1 - (count + 1 : ℕ) + 1 := by
      push_cast
      ring
    rw [place, zpow_add₀ (by norm_num), zpow_one] at fine
    rw [significant]
    set rounded := roundedAt magnitude (leadingExponent magnitude + 1 - (count + 1 : ℕ))
    have above := le_abs_self (rounded.value - Magnitude.value magnitude)
    have below := neg_le_abs (rounded.value - Magnitude.value magnitude)
    have half := Magnitude.gap_le_two_mul_gap_sub_one magnitude
    have gapPos := gap_pos magnitude
    apply magnitude_eq_of_near finite <;> linarith

end Decimal

end ScriptLexer
