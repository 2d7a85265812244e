import ScriptLexer.Number.Magnitude

namespace ScriptLexer

/-! Exact decimal numbers without a sign, and the doubles nearest to them. -/

/-- The number `digits * 10 ^ exponent`. -/
structure Decimal where
  digits : Nat
  exponent : Int
deriving DecidableEq

namespace Decimal

def numerator (decimal : Decimal) : Nat :=
  decimal.digits * Nat.pow 10 decimal.exponent.toNat

def denominator (decimal : Decimal) : Nat :=
  Nat.pow 10 (-decimal.exponent).toNat

/-- The magnitude of the double that a decimal reads as. -/
def magnitude (decimal : Decimal) : Nat :=
  Magnitude.nearest decimal.numerator decimal.denominator

theorem denominator_pos (decimal : Decimal) : 0 < decimal.denominator :=
  Nat.pow_pos (by decide)

end Decimal

end ScriptLexer
