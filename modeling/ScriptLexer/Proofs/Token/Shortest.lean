import Mathlib
import ScriptLexer.Proofs.Number.Shortest
import ScriptLexer.Proofs.Token.Display

namespace ScriptLexer

open Byte

/-! The length of the text of a double.  It has as few significant digits as any decimal that is
read as the double, except that above a power of two there may be one with a digit less.
-/

/-- A number text in front of its exponent. -/
def mantissa (text : Bytes) : Bytes :=
  text.takeWhile (· ≠ 0x65)

/-- Zeros around digits are not significant. -/
theorem significantDigits_le {text digits : Bytes} {front back : ℕ}
    (shown : text.filter isDigit =
      List.replicate front zero ++ digits ++ List.replicate back zero) :
    significantDigits text ≤ digits.length := by
  have areZeros : ∀ byte ∈ List.replicate front zero, (byte == zero) = true := by
    intro byte member
    rw [List.eq_of_mem_replicate member]
    rfl
  rw [significantDigits, shown, List.append_assoc, List.dropWhile_append_of_pos areZeros,
    List.dropWhile_append]
  split
  · simp [Decimal.trimZeros]
  · rw [Decimal.trimZeros_append_replicate]
    exact (Decimal.length_trimZeros_le _).trans (List.length_dropWhile_le _ digits)

namespace Decimal

variable {whole fraction digits tail : Bytes} {leading : ℤ}

theorem mantissa_exponentText (exponent : ℤ) : mantissa (exponentText exponent) = [] := by
  rw [exponentText]
  split <;> rfl

/-- In front of an exponent there are digits around a point. -/
theorem filter_mantissa (areDigits : ∀ byte ∈ whole ++ fraction, isDigit byte = true)
    (ends : mantissa tail = []) :
    (mantissa (whole ++ Numeral.pointed fraction ++ tail)).filter isDigit = whole ++ fraction := by
  have unmarked : ∀ byte ∈ whole ++ Numeral.pointed fraction,
      decide (byte ≠ (0x65 : UInt8)) = true := by
    intro byte member
    rw [decide_eq_true_eq]
    rintro rfl
    have digitOrPoint : (0x65 : UInt8) ∈ whole ++ fraction ∨ (0x65 : UInt8) = point := by
      rw [List.mem_append, Numeral.pointed] at member
      rw [List.mem_append]
      split at member
      · exact .inl (member.imp_right fun behind => absurd behind List.not_mem_nil)
      · rw [List.mem_cons] at member
        tauto
    rcases digitOrPoint with isAmong | isPoint
    · exact absurd (areDigits _ isAmong) (by decide)
    · exact absurd isPoint (by decide)
  have cut : mantissa (whole ++ Numeral.pointed fraction ++ tail) =
      whole ++ Numeral.pointed fraction ++ mantissa tail := List.takeWhile_append_of_pos unmarked
  rw [cut, ends, List.append_nil, List.filter_append, Numeral.filter_isDigit_pointed,
    ← List.filter_append, List.filter_eq_self]
  exact areDigits

theorem significantDigits_scientific (areDigits : ∀ digit ∈ digits, isDigit digit = true) :
    significantDigits (mantissa (scientific digits leading)) ≤ digits.length := by
  have regrouped : digits.take 1 ++ digits.drop 1 = digits := List.take_append_drop 1 digits
  have shown := filter_mantissa (regrouped.symm ▸ areDigits) (mantissa_exponentText leading)
  have alone : digits = List.replicate 0 zero ++ digits ++ List.replicate 0 zero :=
    (List.append_nil digits).symm
  exact significantDigits_le (shown.trans (regrouped.trans alone))

theorem significantDigits_positional (areDigits : ∀ digit ∈ digits, isDigit digit = true) :
    significantDigits (mantissa (positional digits leading)) ≤ digits.length := by
  have areZeros (count : ℕ) : ∀ digit ∈ List.replicate count zero, isDigit digit = true :=
    fun digit => isDigit_of_mem_replicate
  rw [positional, ← List.append_nil (ite _ _ _)]
  split
  · set zeros := (-leading - 1).toNat
    have regrouped : [zero] ++ (List.replicate zeros zero ++ digits) =
        List.replicate (zeros + 1) zero ++ digits ++ List.replicate 0 zero := by
      rw [List.replicate_zero, List.append_nil, ← List.append_assoc, List.singleton_append,
        ← List.replicate_succ]
    have all : ∀ byte ∈ [zero] ++ (List.replicate zeros zero ++ digits), isDigit byte = true := by
      rw [regrouped, List.forall_mem_append, List.forall_mem_append]
      exact ⟨⟨areZeros _, areDigits⟩, areZeros _⟩
    exact significantDigits_le ((filter_mantissa all rfl).trans regrouped)
  · set whole := leading.toNat + 1
    have regrouped : digits.take whole ++ List.replicate (whole - digits.length) zero ++
        digits.drop whole =
          List.replicate 0 zero ++ digits ++ List.replicate (whole - digits.length) zero :=
      take_append_zeros_append_drop digits whole
    have all : ∀ byte ∈ digits.take whole ++ List.replicate (whole - digits.length) zero ++
        digits.drop whole, isDigit byte = true := by
      rw [regrouped, List.forall_mem_append, List.forall_mem_append]
      exact ⟨⟨areZeros _, areDigits⟩, areZeros _⟩
    exact significantDigits_le ((filter_mantissa all rfl).trans regrouped)

/-- The text of a decimal has no more significant digits than are left of its own without the
zeros at their end. -/
theorem significantDigits_text (decimal : Decimal) (precision : ℕ) :
    significantDigits (mantissa (decimal.text precision)) ≤
      (trimZeros (Numeral.ofNat decimal.digits)).length := by
  have areDigits : ∀ digit ∈ trimZeros (Numeral.ofNat decimal.digits), isDigit digit = true :=
    fun digit member => Numeral.isDigit_of_mem_ofNat (mem_of_mem_trimZeros member)
  rw [text]
  split
  · exact significantDigits_positional areDigits
  · exact significantDigits_scientific areDigits

/-- Rounding up to a power of ten leaves a single digit. -/
theorem length_trimZeros_ofNat_le {digits count : ℕ} (some : 1 ≤ count)
    (few : digits ≤ 10 ^ count) :
    (trimZeros (Numeral.ofNat digits)).length ≤ count := by
  rcases Nat.lt_or_eq_of_le few with fewer | isPower
  · exact (length_trimZeros_le _).trans (Numeral.length_ofNat_le some fewer)
  · rw [isPower, ← Nat.one_mul (10 ^ count), Numeral.ofNat_mul_pow Nat.one_pos,
      trimZeros_append_replicate]
    exact (length_trimZeros_le _).trans some

end Decimal

namespace Magnitude

theorem significantDigits_text {magnitude : ℕ} (positive : 0 < magnitude)
    (finite : magnitude < infinity) :
    significantDigits (mantissa (text magnitude)) ≤ precision magnitude := by
  rw [text, if_neg positive.ne', if_pos finite]
  refine (Decimal.significantDigits_text _ _).trans ?_
  exact Decimal.length_trimZeros_ofNat_le (precision_bounds magnitude).1
    (digits_significant_le positive _)

end Magnitude

namespace Binary64

/-- The double that a decimal behind a sign is read as. -/
def ofSigned (negative : Bool) (decimal : Decimal) : Binary64 :=
  { ofDecimal decimal with negative := negative }

theorem magnitude_ofSigned (negative : Bool) (decimal : Decimal) :
    (ofSigned negative decimal).magnitude = decimal.magnitude := rfl

/-- The sign is no digit. -/
theorem significantDigits_text (number : Binary64) :
    significantDigits (mantissa number.text) =
      significantDigits (mantissa (Magnitude.text number.magnitude)) := by
  rw [text]
  cases number.negative <;> rfl

/-- No decimal that is read as a double has fewer digits than the double has in print, except
that above a power of two there may be one with a single digit less. -/
theorem significantDigits_text_le {number : Binary64} {read : Decimal} {count : ℕ}
    (nonzero : number.magnitude ≠ 0) (finite : number.magnitude < Magnitude.infinity)
    (few : read.digits < 10 ^ count)
    (reads : ofSigned number.negative read = number) :
    significantDigits (mantissa number.text) ≤ count + 1 ∧
      (number.magnitude % Magnitude.fieldUnit ≠ 0 ∨
          number.magnitude < 2 * Magnitude.fieldUnit ∨
          read.value ≤ Magnitude.value number.magnitude →
        significantDigits (mantissa number.text) ≤ count) := by
  have positive := Nat.pos_of_ne_zero nonzero
  have readsMagnitude : read.magnitude = number.magnitude := by
    rw [← magnitude_ofSigned number.negative, reads]
  have shown := Magnitude.significantDigits_text positive finite
  rw [significantDigits_text]
  refine ⟨shown.trans (Decimal.precision_le_succ positive finite few readsMagnitude), ?_⟩
  intro fair
  refine shown.trans (Decimal.precision_le positive finite few readsMagnitude ?_)
  rw [← or_assoc] at fair
  exact fair.imp_left Magnitude.gap_sub_one_eq

/-- The least positive double, which is read from a three, too. -/
theorem significantDigits_text_least :
    (ofBits 1).magnitude ≠ 0 ∧ (ofBits 1).magnitude < Magnitude.infinity ∧
      ofSigned (ofBits 1).negative ⟨3, -324⟩ = ofBits 1 ∧
      (ofBits 1).text = ascii "5e-324" ∧
      significantDigits (mantissa (ofBits 1).text) ≤ 1 := by
  have nonzero : (ofBits 1).magnitude ≠ 0 := by decide
  have finite : (ofBits 1).magnitude < Magnitude.infinity := by decide
  have reads : ofSigned (ofBits 1).negative ⟨3, -324⟩ = ofBits 1 := by decide +kernel
  have small : (ofBits 1).magnitude < 2 * Magnitude.fieldUnit := by decide
  have few : (⟨3, -324⟩ : Decimal).digits < 10 ^ 1 := by decide
  refine ⟨nonzero, finite, reads, by decide +kernel, ?_⟩
  exact (significantDigits_text_le nonzero finite few reads).2 (.inr (.inl small))

/-- A decimal of sixteen digits above a power of two is typed and read as that power, and the
nearest one below it is not, so that seventeen digits are displayed. -/
theorem significantDigits_text_powerOfTwo :
    ∃ token ∈ (scan (ascii "0.00000000000005684341886080802")).tokens,
      token.display =
          ascii "NUMBER 0.00000000000005684341886080802 5.6843418860808015e-14" ∧
        token.numberValue? = some (ofDecimal ⟨5684341886080802, -29⟩) ∧
        ofDecimal ⟨5684341886080802, -29⟩ = ofBits 0x3D30000000000000 ∧
        (⟨5684341886080802, -29⟩ : Decimal).digits < 10 ^ 16 ∧
        significantDigits (mantissa (ofBits 0x3D30000000000000).text) = 17 := by
  have member : Token.ofLexeme (.number (ascii "0") (ascii "00000000000005684341886080802")) 1 ∈
      (scan (ascii "0.00000000000005684341886080802")).tokens := by
    decide +kernel
  exact ⟨_, member, by decide +kernel, by decide +kernel, by decide +kernel, by decide,
    by decide +kernel⟩

end Binary64

end ScriptLexer
