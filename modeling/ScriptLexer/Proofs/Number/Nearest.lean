import Mathlib
import ScriptLexer.Proofs.Number.Interval

namespace ScriptLexer.Binary64

open Magnitude (fieldUnit infinity)

/-! What it is for a double to be nearest to a number among all doubles, those below zero
included, and that the doubles which decimals are read as are nearest to them.
-/

/-- The number that a finite double stands for. -/
def value (number : Binary64) : ℚ :=
  if number.negative then -Magnitude.value number.magnitude else Magnitude.value number.magnitude

def IsFinite (number : Binary64) : Prop :=
  number.magnitude < infinity

/-- The significand as a whole number, with the implicit bit where there is one. -/
def significand (number : Binary64) : ℕ :=
  if number.magnitude < fieldUnit then number.magnitude
  else fieldUnit + number.magnitude % fieldUnit

theorem significand_mod_two (number : Binary64) :
    number.significand % 2 = number.magnitude % 2 := by
  rw [significand]
  unfold fieldUnit
  split <;> omega

/-- Correct rounding: no finite double is nearer to the number, and if another one is as near the
significand is even. -/
structure IsNearest (number : Binary64) (exact : ℚ) : Prop where
  finite : number.IsFinite
  nearest : ∀ other : Binary64, other.IsFinite →
    |number.value - exact| ≤ |other.value - exact|
  even_of_tie : ∀ other : Binary64, other.IsFinite → other.value ≠ number.value →
    |other.value - exact| = |number.value - exact| → number.significand % 2 = 0

variable {number : Binary64} {decimal : Decimal}

theorem value_of_not_negative (positive : number.negative = false) :
    number.value = Magnitude.value number.magnitude := by
  rw [value, positive]
  rfl

theorem value_ofDecimal (decimal : Decimal) :
    (ofDecimal decimal).value = Magnitude.value decimal.magnitude := rfl

/-- What a decimal is read as depends on its value alone. -/
theorem ofDecimal_eq_of_value_eq {other : Decimal} (same : decimal.value = other.value) :
    ofDecimal decimal = ofDecimal other := by
  simp only [ofDecimal, Decimal.magnitude_eq_of_value_eq same]

/-- A double below zero is no nearer to a number above it than its opposite. -/
theorem abs_value_magnitude_sub_le (number : Binary64) {exact : ℚ} (nonnegative : 0 ≤ exact) :
    |Magnitude.value number.magnitude - exact| ≤ |number.value - exact| := by
  have size := Magnitude.value_nonneg number.magnitude
  rw [value]
  split
  · rw [abs_of_nonpos (by linarith : -Magnitude.value number.magnitude - exact ≤ 0), abs_le]
    constructor <;> linarith
  · exact le_rfl

/-- Only zero is as near as its opposite. -/
theorem value_eq_of_tie_of_magnitude_eq {other : Binary64}
    (same : other.magnitude = decimal.magnitude)
    (tie : |other.value - decimal.value| = |(ofDecimal decimal).value - decimal.value|) :
    other.value = (ofDecimal decimal).value := by
  have nonnegative := decimal.value_nonneg
  have size := Magnitude.value_nonneg decimal.magnitude
  have zeroIsNoNearer := decimal.abs_value_magnitude_sub_le (Nat.zero_le infinity)
  rw [Magnitude.value_zero, zero_sub, abs_neg, abs_of_nonneg nonnegative] at zeroIsNoNearer
  rw [value_ofDecimal, value, same] at *
  split
  · next negative =>
      rw [if_pos negative, abs_of_nonpos (by linarith)] at tie
      linarith
  · rfl

theorem isNearest_ofDecimal (finite : decimal.magnitude < infinity) :
    (ofDecimal decimal).IsNearest decimal.value where
  finite := finite
  nearest other otherFinite :=
    (decimal.abs_value_magnitude_sub_le otherFinite.le).trans
      (other.abs_value_magnitude_sub_le decimal.value_nonneg)
  even_of_tie other _ different tie := by
    rw [significand_mod_two]
    apply Decimal.even_magnitude_of_tie
    · intro same
      exact different (value_eq_of_tie_of_magnitude_eq same tie)
    · exact (other.abs_value_magnitude_sub_le decimal.value_nonneg).trans_eq tie

end ScriptLexer.Binary64
