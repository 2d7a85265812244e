import ScriptLexer.Number.Precision
import ScriptLexer.Number.Binary64

namespace ScriptLexer

/-! The text of a number.  Digits are laid out positionally as long as the first
one stands at most four places behind the point and the precision reaches down to
the units; otherwise one digit stands before the point and an exponent follows.
Zeros at the end of the digits are never written, so that ten is `1e+01`.
-/

open Byte

namespace Decimal

def trimZeros (digits : Bytes) : Bytes :=
  (digits.reverse.dropWhile (· == zero)).reverse

/-- Digits with the first one at the place of `10 ^ leading`. -/
def positional (digits : Bytes) (leading : Int) : Bytes :=
  if leading < 0 then
    zero :: Numeral.pointed (List.replicate (-leading - 1).toNat zero ++ digits)
  else
    let whole := leading.toNat + 1
    digits.take whole ++ List.replicate (whole - digits.length) zero ++
      Numeral.pointed (digits.drop whole)

/-- An exponent with its sign and at least two digits. -/
def exponentText (exponent : Int) : Bytes :=
  let digits := Numeral.ofNat exponent.natAbs
  ascii (if exponent < 0 then "e-" else "e+") ++
    List.replicate (2 - digits.length) zero ++ digits

def scientific (digits : Bytes) (leading : Int) : Bytes :=
  digits.take 1 ++ Numeral.pointed (digits.drop 1) ++ exponentText leading

/-- The text of a positive decimal that has been rounded to `precision` digits. -/
def text (decimal : Decimal) (precision : Nat) : Bytes :=
  let digits := Numeral.ofNat decimal.digits
  let leading := decimal.exponent + digits.length - 1
  if -4 ≤ leading ∧ leading < precision then positional (trimZeros digits) leading
  else scientific (trimZeros digits) leading

end Decimal

namespace Magnitude

def text (magnitude : Nat) : Bytes :=
  if magnitude = 0 then ascii "0"
  else if magnitude < infinity then
    let precision := precision magnitude
    (significant magnitude precision).text precision
  else if magnitude = infinity then ascii "inf"
  else ascii "nan"

end Magnitude

namespace Binary64

/-- The sign, and the magnitude at the least precision that reads back. -/
def text (number : Binary64) : Bytes :=
  (if number.negative then ascii "-" else []) ++ Magnitude.text number.magnitude

end Binary64

end ScriptLexer
