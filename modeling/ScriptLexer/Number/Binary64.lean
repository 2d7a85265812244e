import ScriptLexer.Number.Decimal

namespace ScriptLexer

/-! Double-precision numbers: a sign bit and a magnitude. -/

structure Binary64 where
  negative : Bool
  magnitude : Nat
  magnitude_lt : magnitude < Magnitude.limit
deriving DecidableEq

namespace Binary64

def ofBits (bits : UInt64) : Binary64 where
  negative := decide (Magnitude.limit ≤ bits.toNat)
  magnitude := bits.toNat % Magnitude.limit
  magnitude_lt := Nat.mod_lt _ (by decide)

def toBits (number : Binary64) : UInt64 :=
  UInt64.ofNat ((if number.negative then Magnitude.limit else 0) + number.magnitude)

def isNaN (number : Binary64) : Bool :=
  Magnitude.infinity < number.magnitude

/-- Numeric equality: both zeros are equal and a NaN is equal to nothing. -/
def equal (first second : Binary64) : Bool :=
  !first.isNaN && !second.isNaN && first.magnitude == second.magnitude &&
    (first.negative == second.negative || first.magnitude == 0)

def ofDecimal (decimal : Decimal) : Binary64 where
  negative := false
  magnitude := decimal.magnitude
  magnitude_lt := Nat.lt_of_le_of_lt (Magnitude.nearest_le_infinity _ _) (by decide)

theorem toNat_toBits (number : Binary64) :
    number.toBits.toNat = (if number.negative then Magnitude.limit else 0) + number.magnitude := by
  have bound := number.magnitude_lt
  simp only [Magnitude.limit] at bound
  rw [toBits, UInt64.toNat_ofNat', Magnitude.limit]
  split <;> omega

theorem toBits_ofBits (bits : UInt64) : (ofBits bits).toBits = bits := by
  have width := bits.toNat_lt
  apply UInt64.toNat_inj.mp
  simp only [toNat_toBits, ofBits, decide_eq_true_eq]
  unfold Magnitude.limit
  split <;> omega

theorem ofDecimal_not_negative (decimal : Decimal) : (ofDecimal decimal).negative = false := rfl

theorem ofDecimal_not_isNaN (decimal : Decimal) : (ofDecimal decimal).isNaN = false := by
  have bound := Magnitude.nearest_le_infinity decimal.numerator decimal.denominator
  exact decide_eq_false (Nat.not_lt.mpr bound)

theorem equal_self {number : Binary64} (numeric : number.isNaN = false) :
    number.equal number = true := by
  simp [equal, numeric]

end Binary64

end ScriptLexer
