import Mathlib
import ScriptLexer.Proofs.Number.Value

namespace ScriptLexer.Decimal

open Magnitude (gap gap_pos infinity)

/-! The decimals that are read as a magnitude.  They make up an interval that reaches half a gap
up and half a gap down, and its ends belong to it if the magnitude is even.
-/

variable {decimal other : Decimal} {magnitude : ℕ}

theorem magnitude_le_infinity (decimal : Decimal) : decimal.magnitude ≤ infinity :=
  Magnitude.nearest_le_infinity _ _

/-- Up to the greatest finite number nothing is read as infinity. -/
theorem magnitude_lt_infinity (atMost : decimal.value ≤ (2 ^ 53 - 1) * 2 ^ (971 : ℤ)) :
    decimal.magnitude < infinity := by
  rw [← Magnitude.value_infinity_sub_one] at atMost
  exact Nat.lt_of_le_of_lt (decimal.magnitude_le (by decide) atMost) (by decide)

theorem magnitude_of_value_zero (isZero : decimal.value = 0) : decimal.magnitude = 0 :=
  Nat.le_zero.mp (decimal.magnitude_le (Nat.zero_le _) (Magnitude.value_zero ▸ isZero.le))

/-- Reading keeps the order. -/
theorem magnitude_mono (ordered : decimal.value ≤ other.value) :
    decimal.magnitude ≤ other.magnitude := by
  by_contra less
  have apart := Magnitude.value_lt_value (not_le.mp less)
  have above := Magnitude.add_le_two_mul_of_nearer apart
    (decimal.abs_value_magnitude_sub_le other.magnitude_le_infinity)
  have below := Magnitude.two_mul_le_add_of_nearer apart
    (other.abs_value_magnitude_sub_le decimal.magnitude_le_infinity)
  -- both lie in the middle between the two magnitudes
  have same : decimal.value = other.value := by linarith
  exact less (magnitude_eq_of_value_eq same).le

/-- What lies between a decimal and the magnitude that it is read as is read as that, too. -/
theorem magnitude_eq_of_between (reads : decimal.magnitude = magnitude)
    (between : decimal.value ≤ other.value ∧ other.value ≤ Magnitude.value magnitude ∨
      Magnitude.value magnitude ≤ other.value ∧ other.value ≤ decimal.value) :
    other.magnitude = magnitude := by
  have reached : magnitude ≤ infinity := reads ▸ decimal.magnitude_le_infinity
  rcases between with ⟨behind, below⟩ | ⟨above, before⟩
  · exact Nat.le_antisymm (magnitude_le reached below) (reads ▸ magnitude_mono behind)
  · exact Nat.le_antisymm (reads ▸ magnitude_mono before) (le_magnitude reached above)

/-- In the middle between two magnitudes it is the even one that is read. -/
theorem magnitude_of_middle {lower : ℕ} (finite : lower < infinity)
    (middle : 2 * decimal.value = Magnitude.value lower + Magnitude.value (lower + 1)) :
    (decimal.magnitude = lower ∨ decimal.magnitude = lower + 1) ∧ decimal.magnitude % 2 = 0 := by
  have apart := Magnitude.value_lt_value (Nat.lt_succ_self lower)
  rw [Nat.succ_eq_add_one] at apart
  have least := decimal.le_magnitude finite.le (by linarith)
  have greatest : decimal.magnitude ≤ lower + 1 :=
    decimal.magnitude_le (Nat.succ_le_of_lt finite) (by linarith)
  have between : decimal.magnitude = lower ∨ decimal.magnitude = lower + 1 := by omega
  refine ⟨between, ?_⟩
  rcases between with isLower | isUpper
  · have different : lower + 1 ≠ decimal.magnitude := by omega
    apply even_magnitude_of_tie different
    rw [isLower, abs_of_nonneg (by linarith), abs_of_nonpos (by linarith)]
    linarith
  · have different : lower ≠ decimal.magnitude := by omega
    apply even_magnitude_of_tie different
    rw [isUpper, abs_of_nonpos (by linarith), abs_of_nonneg (by linarith)]
    linarith

theorem magnitude_eq_iff_of_upper_end (finite : magnitude < infinity)
    (atEnd : 2 * (decimal.value - Magnitude.value magnitude) = gap magnitude) :
    decimal.magnitude = magnitude ↔ magnitude % 2 = 0 := by
  have middle : 2 * decimal.value =
      Magnitude.value magnitude + Magnitude.value (magnitude + 1) := by
    linarith [Magnitude.value_succ magnitude]
  have parity := magnitude_of_middle finite middle
  omega

theorem magnitude_eq_iff_of_lower_end (positive : 0 < magnitude) (finite : magnitude < infinity)
    (atEnd : 2 * (Magnitude.value magnitude - decimal.value) = gap (magnitude - 1)) :
    decimal.magnitude = magnitude ↔ magnitude % 2 = 0 := by
  obtain ⟨before, rfl⟩ := Nat.exists_eq_add_one_of_ne_zero positive.ne'
  rw [Nat.add_sub_cancel] at atEnd
  have middle : 2 * decimal.value =
      Magnitude.value before + Magnitude.value (before + 1) := by
    linarith [Magnitude.value_succ before]
  have parity := magnitude_of_middle (Nat.lt_of_succ_lt finite) middle
  omega

/-- Exactly the decimals of the interval are read as the magnitude. -/
theorem magnitude_eq_iff (positive : 0 < magnitude) (finite : magnitude < infinity) :
    decimal.magnitude = magnitude ↔
      2 * (decimal.value - Magnitude.value magnitude) ≤ gap magnitude ∧
        2 * (Magnitude.value magnitude - decimal.value) ≤ gap (magnitude - 1) ∧
        (2 * (decimal.value - Magnitude.value magnitude) = gap magnitude ∨
          2 * (Magnitude.value magnitude - decimal.value) = gap (magnitude - 1) →
            magnitude % 2 = 0) := by
  constructor
  · intro reads
    refine ⟨?_, ?_, ?_⟩
    · rw [← reads]
      exact two_mul_sub_value_le (reads.trans_lt finite)
    · rw [← reads]
      exact two_mul_value_sub_le (positive.trans_eq reads.symm)
    · rintro (upper | lower)
      · exact (magnitude_eq_iff_of_upper_end finite upper).mp reads
      · exact (magnitude_eq_iff_of_lower_end positive finite lower).mp reads
  · rintro ⟨above, below, ends⟩
    rcases above.lt_or_eq with strictlyAbove | upper
    · rcases below.lt_or_eq with strictlyBelow | lower
      · exact magnitude_eq_of_near finite strictlyAbove strictlyBelow
      · exact (magnitude_eq_iff_of_lower_end positive finite lower).mpr (ends (.inr lower))
    · exact (magnitude_eq_iff_of_upper_end finite upper).mpr (ends (.inl upper))

end ScriptLexer.Decimal
