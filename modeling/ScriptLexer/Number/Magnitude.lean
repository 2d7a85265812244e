import ScriptLexer.Number.Rounding

namespace ScriptLexer.Magnitude

/-! Magnitudes of double-precision numbers.  A magnitude is the natural number
that the 63 bits below the sign bit spell, so that greater numbers have greater
magnitudes.  All values are counted in the least positive number `2 ^ -1074`.
-/

/-- How many units make one. -/
def unitsPerOne : Nat := Nat.pow 2 1074

/-- The weight of the exponent field, and of the implicit bit of a significand. -/
def fieldUnit : Nat := 0x0010000000000000

/-- The magnitude of infinity.  Those above it stand for no number. -/
def infinity : Nat := 0x7FF0000000000000

/-- The weight of the sign bit.  All magnitudes are below it. -/
def limit : Nat := 0x8000000000000000

/-- The value of a finite magnitude in units.  The fraction counts in steps that
the exponent field doubles, with an implicit bit before it unless the field is
zero. -/
def units (magnitude : Nat) : Nat :=
  let field := magnitude / fieldUnit
  let fraction := magnitude % fieldUnit
  if field = 0 then fraction else (fieldUnit + fraction) * Nat.pow 2 (field - 1)

/-- The magnitude nearest to a quotient, with ties to the even significand.
The quotient is rounded in steps that leave it 53 bits, or in units if it has no
more.  Should rounding give it one bit more, that carries into the exponent
field.  What lies beyond the greatest finite number becomes infinity. -/
def nearest (numerator denominator : Nat) : Nat :=
  let scaled := numerator * unitsPerOne
  let doublings := Nat.log2 (scaled / denominator) - 52
  min infinity
    (doublings * fieldUnit + roundHalfEven scaled (denominator * Nat.pow 2 doublings))

theorem nearest_le_infinity (numerator denominator : Nat) :
    nearest numerator denominator ≤ infinity :=
  Nat.min_le_left _ _

theorem nearest_zero (denominator : Nat) : nearest 0 denominator = 0 := by
  simp [nearest, roundHalfEven, Nat.log2_zero]

end ScriptLexer.Magnitude
