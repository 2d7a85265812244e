namespace ScriptLexer

/-! Rounding of an exact quotient to a natural number. -/

/-- The natural number nearest to a quotient.  Of two that are equally near, it
is the even one. -/
def roundHalfEven (numerator denominator : Nat) : Nat :=
  let quotient := numerator / denominator
  let twice := 2 * (numerator % denominator)
  if denominator < twice ∨ (twice = denominator ∧ quotient % 2 = 1) then quotient + 1
  else quotient

/-- Twice the rounded value is at most one away from twice the quotient. -/
theorem roundHalfEven_within_half (numerator denominator : Nat) (positive : 0 < denominator) :
    2 * numerator ≤ (2 * roundHalfEven numerator denominator + 1) * denominator ∧
      2 * roundHalfEven numerator denominator * denominator ≤ 2 * numerator + denominator := by
  have split := Nat.div_add_mod numerator denominator
  have below := Nat.mod_lt numerator positive
  have product : denominator * (numerator / denominator) =
      (numerator / denominator) * denominator := Nat.mul_comm _ _
  simp only [roundHalfEven]
  split <;> simp only [Nat.add_mul, Nat.mul_assoc, Nat.mul_add, Nat.one_mul] <;> omega

/-- A quotient halfway between two natural numbers goes to the even one. -/
theorem roundHalfEven_even_of_tie {numerator denominator : Nat}
    (tie : 2 * (numerator % denominator) = denominator) :
    roundHalfEven numerator denominator % 2 = 0 := by
  simp only [roundHalfEven, tie, Nat.lt_irrefl, false_or, true_and]
  split <;> omega

theorem div_le_roundHalfEven (numerator denominator : Nat) :
    numerator / denominator ≤ roundHalfEven numerator denominator := by
  simp only [roundHalfEven]
  split <;> omega

theorem roundHalfEven_le_div_add_one (numerator denominator : Nat) :
    roundHalfEven numerator denominator ≤ numerator / denominator + 1 := by
  simp only [roundHalfEven]
  split <;> omega

end ScriptLexer
