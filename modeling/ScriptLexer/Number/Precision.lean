import ScriptLexer.Number.Decimal
import ScriptLexer.Text.Numeral

namespace ScriptLexer.Magnitude

/-! Decimals for a magnitude: its value rounded to a number of significant
digits, and the precision, at which rounding first loses nothing.  All functions
here are meant for positive finite magnitudes.
-/

/-- The exponent of the first significant digit.  No positive value is below
`10 ^ -324`, so the whole digits after a shift by 324 places tell it. -/
def leadingExponent (magnitude : Nat) : Int :=
  (Numeral.ofNat (units magnitude * Nat.pow 10 324 / unitsPerOne)).length - 325

/-- The multiple of `10 ^ exponent` nearest to the value. -/
def roundedAt (magnitude : Nat) (exponent : Int) : Decimal where
  digits := roundHalfEven (units magnitude * Nat.pow 10 (-exponent).toNat)
    (unitsPerOne * Nat.pow 10 exponent.toNat)
  exponent := exponent

/-- The value rounded to a number of significant digits. -/
def significant (magnitude count : Nat) : Decimal :=
  roundedAt magnitude (leadingExponent magnitude + 1 - count)

def maxPrecision : Nat := 17

/-- The least number of significant digits to which the value can be rounded so
that the decimal reads back as the magnitude. -/
def precision (magnitude : Nat) : Nat :=
  let lead := leadingExponent magnitude
  ((List.range' 1 maxPrecision).find? fun count : Nat =>
    (roundedAt magnitude (lead + 1 - count)).magnitude == magnitude).getD maxPrecision

theorem precision_eq_find (magnitude : Nat) :
    precision magnitude = ((List.range' 1 maxPrecision).find? fun count =>
      (significant magnitude count).magnitude == magnitude).getD maxPrecision := rfl

theorem precision_bounds (magnitude : Nat) :
    1 ≤ precision magnitude ∧ precision magnitude ≤ maxPrecision := by
  rw [precision_eq_find]
  cases found : (List.range' 1 maxPrecision).find? fun count =>
      (significant magnitude count).magnitude == magnitude with
  | none => exact ⟨by decide, Nat.le_refl _⟩
  | some count =>
      have member := List.mem_range'_1.mp (List.mem_of_find?_eq_some found)
      rw [Option.getD_some]
      omega

theorem significant_precision {magnitude : Nat} (found : precision magnitude < maxPrecision) :
    (significant magnitude (precision magnitude)).magnitude = magnitude := by
  rw [precision_eq_find] at found ⊢
  cases result : (List.range' 1 maxPrecision).find? fun count =>
      (significant magnitude count).magnitude == magnitude with
  | none => simp [result] at found
  | some count =>
      have reads := List.find?_some result
      exact eq_of_beq reads

theorem significant_ne_of_lt_precision {magnitude count : Nat} (positive : 1 ≤ count)
    (fewer : count < precision magnitude) : (significant magnitude count).magnitude ≠ magnitude := by
  intro reads
  have bound := (precision_bounds magnitude).2
  have member : count ∈ List.range' 1 maxPrecision := List.mem_range'_1.mpr (by omega)
  rw [precision_eq_find] at fewer
  cases result : (List.range' 1 maxPrecision).find? fun count =>
      (significant magnitude count).magnitude == magnitude with
  | none => exact List.find?_eq_none.mp result count member (beq_iff_eq.mpr reads)
  | some least =>
      obtain ⟨_, before, after, split, earlier⟩ := List.find?_eq_some_iff_append.mp result
      rw [result, Option.getD_some] at fewer
      have ordered : (before ++ least :: after).Pairwise (· < ·) := split ▸ List.pairwise_lt_range'
      rcases List.mem_append.mp (split ▸ member) with early | late
      · have different := earlier count early
        simp [reads] at different
      · rcases List.mem_cons.mp late with here | beyond
        · omega
        · have above := List.rel_of_pairwise_cons (List.pairwise_append.mp ordered).2.1 beyond
          omega

end ScriptLexer.Magnitude
