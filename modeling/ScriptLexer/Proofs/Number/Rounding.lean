import Mathlib
import ScriptLexer.Number.Rounding

namespace ScriptLexer

/-! No natural number is nearer to a quotient than what the quotient is rounded to. -/

variable {numerator denominator : ℕ}

/-- Rounding sees the quotient and not the terms that it is written with. -/
theorem roundHalfEven_mul_mul {factor : ℕ} (positive : 0 < factor) (numerator denominator : ℕ) :
    roundHalfEven (factor * numerator) (factor * denominator) =
      roundHalfEven numerator denominator := by
  have twice : 2 * (factor * (numerator % denominator)) =
      factor * (2 * (numerator % denominator)) := Nat.mul_left_comm _ _ _
  simp only [roundHalfEven, Nat.mul_div_mul_left _ _ positive, Nat.mul_mod_mul_left, twice,
    Nat.mul_lt_mul_left positive, Nat.mul_right_inj positive.ne']

theorem abs_roundHalfEven_sub_le (numerator : ℕ) (positive : 0 < denominator) :
    |(roundHalfEven numerator denominator : ℚ) - numerator / denominator| ≤ 1 / 2 := by
  obtain ⟨above, below⟩ := roundHalfEven_within_half numerator denominator positive
  have size : (0 : ℚ) < denominator := by exact_mod_cast positive
  have aboveRat : 2 * (numerator : ℚ) ≤
      (2 * roundHalfEven numerator denominator + 1) * denominator := by exact_mod_cast above
  have belowRat : 2 * (roundHalfEven numerator denominator : ℚ) * denominator ≤
      2 * numerator + denominator := by exact_mod_cast below
  rw [abs_le, le_sub_iff_add_le, sub_le_iff_le_add, ← sub_eq_neg_add, sub_le_iff_le_add]
  constructor
  · rw [div_le_iff₀ size]
    linarith
  · rw [← sub_le_iff_le_add', le_div_iff₀ size]
    linarith

/-- Only one natural number is nearer to a quotient than half of one. -/
theorem half_le_abs_sub_of_ne {near other : ℕ} (different : other ≠ near) {exact : ℚ}
    (close : |(near : ℚ) - exact| ≤ 1 / 2) : 1 / 2 ≤ |(other : ℚ) - exact| := by
  obtain ⟨above, below⟩ := abs_le.mp close
  rw [le_abs]
  rcases Nat.lt_or_gt_of_ne different with less | more
  · have gap : (other : ℚ) + 1 ≤ near := by exact_mod_cast less
    right
    linarith
  · have gap : (near : ℚ) + 1 ≤ other := by exact_mod_cast more
    left
    linarith

theorem abs_roundHalfEven_sub_le_abs_sub (numerator : ℕ) (positive : 0 < denominator)
    (other : ℕ) :
    |(roundHalfEven numerator denominator : ℚ) - numerator / denominator| ≤
      |(other : ℚ) - numerator / denominator| := by
  have half := abs_roundHalfEven_sub_le numerator positive
  by_cases same : other = roundHalfEven numerator denominator
  · rw [same]
  · exact half.trans (half_le_abs_sub_of_ne same half)

theorem roundHalfEven_eq_of_abs_sub_lt (positive : 0 < denominator) {near : ℕ}
    (close : |(near : ℚ) - numerator / denominator| < 1 / 2) :
    roundHalfEven numerator denominator = near := by
  by_contra different
  have half := abs_roundHalfEven_sub_le numerator positive
  exact absurd close (half_le_abs_sub_of_ne (Ne.symm different) half).not_gt

/-- Where there is no tie, the rounded number is less than half of one away. -/
theorem abs_roundHalfEven_sub_lt (positive : 0 < denominator)
    (noTie : 2 * (numerator % denominator) ≠ denominator) :
    |(roundHalfEven numerator denominator : ℚ) - numerator / denominator| < 1 / 2 := by
  have split := Nat.div_add_mod numerator denominator
  have remainder := Nat.mod_lt numerator positive
  have product := Nat.mul_comm denominator (numerator / denominator)
  have strictly : 2 * numerator < (2 * roundHalfEven numerator denominator + 1) * denominator ∧
      2 * roundHalfEven numerator denominator * denominator < 2 * numerator + denominator := by
    simp only [roundHalfEven]
    split <;> simp only [Nat.add_mul, Nat.mul_assoc, Nat.mul_add, Nat.one_mul] <;> omega
  obtain ⟨above, below⟩ := strictly
  have size : (0 : ℚ) < denominator := by exact_mod_cast positive
  have aboveRat : 2 * (numerator : ℚ) <
      (2 * roundHalfEven numerator denominator + 1) * denominator := by exact_mod_cast above
  have belowRat : 2 * (roundHalfEven numerator denominator : ℚ) * denominator <
      2 * numerator + denominator := by exact_mod_cast below
  rw [abs_lt, lt_sub_iff_add_lt, sub_lt_iff_lt_add, ← sub_eq_neg_add, sub_lt_iff_lt_add]
  constructor
  · rw [div_lt_iff₀ size]
    linarith
  · rw [← sub_lt_iff_lt_add', lt_div_iff₀ size]
    linarith

/-- If another natural number is as near to a quotient as the one that it is rounded to, that
one is even. -/
theorem even_roundHalfEven_of_tie (positive : 0 < denominator) {other : ℕ}
    (different : other ≠ roundHalfEven numerator denominator)
    (tie : |(other : ℚ) - numerator / denominator| ≤
      |(roundHalfEven numerator denominator : ℚ) - numerator / denominator|) :
    roundHalfEven numerator denominator % 2 = 0 := by
  by_contra odd
  have half := abs_roundHalfEven_sub_le numerator positive
  have near := abs_roundHalfEven_sub_lt positive (mt roundHalfEven_even_of_tie odd)
  linarith [half_le_abs_sub_of_ne different half]

end ScriptLexer
