import Mathlib
import ScriptLexer.Proofs.Number.Exact
import ScriptLexer.Proofs.Number.Interval
import ScriptLexer.Proofs.Number.Reading
import ScriptLexer.Proofs.Scan.Spacing

namespace ScriptLexer

open Byte

/-! Number tokens in print.  A token shows its lexeme and the number that was made of it.  What
was typed with few enough digits is what is shown, though the zeros may differ.
-/

/-- How many digits stand from the first to the last that is not zero. -/
def significantDigits (text : Bytes) : ℕ :=
  (Decimal.trimZeros ((text.filter isDigit).dropWhile (· == zero))).length

namespace Decimal

/-- A decimal of few digits, neither too small nor too great, is read back from the text of its
double. -/
theorem reads_text_magnitude {decimal : Decimal} (few : decimal.digits < 10 ^ 15)
    (range : decimal.value = 0 ∨
      2 ^ (-1022 : ℤ) ≤ decimal.value ∧ decimal.value ≤ (2 ^ 53 - 1) * 2 ^ (971 : ℤ)) :
    ∃ read, ofText? (Magnitude.text decimal.magnitude) = some read ∧
      read.value = decimal.value := by
  rcases range with isZero | ⟨lower, upper⟩
  · refine ⟨⟨0, 0⟩, ?_, ?_⟩
    · rw [magnitude_of_value_zero isZero]
      decide
    · rw [isZero, value, Nat.cast_zero, zero_mul]
  · rw [← Magnitude.value_fieldUnit] at lower
    have normal := decimal.le_magnitude (by decide) lower
    have finite := magnitude_lt_infinity upper
    have positive : 0 < decimal.magnitude := Nat.lt_of_lt_of_le (by decide) normal
    obtain ⟨read, isRead, same⟩ := Magnitude.reads_text positive finite
    exact ⟨read, isRead, same.trans (value_significant_precision few normal finite)⟩

end Decimal

namespace Binary64

theorem text_of_not_negative {number : Binary64} (positive : number.negative = false) :
    number.text = Magnitude.text number.magnitude := by
  rw [text, positive]
  rfl

theorem magnitude_ofDecimal (decimal : Decimal) :
    (ofDecimal decimal).magnitude = decimal.magnitude := rfl

end Binary64

namespace Lexeme

variable {whole fraction : Bytes}

theorem exists_digits_of_kind {part : Lexeme} (isNumber : part.kind = .number) :
    ∃ whole fraction, part = .number whole fraction := by
  cases part with
  | number whole fraction => exact ⟨whole, fraction, rfl⟩
  | word text =>
      have word := isWord_kind_word text
      rw [isNumber] at word
      cases word
  | _ => cases isNumber

variable (wellFormed : (number whole fraction).WellFormed)

include wellFormed

theorem isDigit_of_mem_digits : ∀ byte ∈ whole ++ fraction, isDigit byte = true :=
  List.forall_mem_append.mpr wellFormed.2

/-- A number's lexeme spells the decimal that its value is made of. -/
theorem ofText?_text_number :
    Decimal.ofText? (number whole fraction).text = some (decimal whole fraction) :=
  Decimal.ofText?_pointed (isDigit_of_mem_digits wellFormed)
    (List.append_ne_nil_of_left_ne_nil wellFormed.1 _)

theorem filter_isDigit_text : (number whole fraction).text.filter isDigit = whole ++ fraction := by
  rw [text, List.filter_append, Numeral.filter_isDigit_pointed, ← List.filter_append,
    List.filter_eq_self]
  exact isDigit_of_mem_digits wellFormed

/-- The significant digits make the same value as all the digits. -/
theorem exists_significant :
    ∃ significant : Decimal, significant.value = (decimal whole fraction).value ∧
      significant.digits < 10 ^ significantDigits (number whole fraction).text := by
  set digits := (whole ++ fraction).dropWhile (· == zero) with isDropped
  set places := digits.length - (Decimal.trimZeros digits).length
  have trimmed : Numeral.value (whole ++ fraction) =
      Numeral.value (Decimal.trimZeros digits) * 10 ^ places := by
    rw [← Decimal.value_trimZeros, isDropped, Numeral.value_dropWhile_zero]
  refine ⟨⟨Numeral.value (Decimal.trimZeros digits), places - fraction.length⟩, ?_, ?_⟩
  · rw [Decimal.value, Decimal.value, decimal, trimmed, Nat.cast_mul, Nat.cast_pow, mul_assoc,
      Nat.cast_ofNat, ← zpow_natCast, ← zpow_add₀ (by norm_num), sub_eq_add_neg]
  · rw [significantDigits, filter_isDigit_text wellFormed]
    apply Numeral.value_lt
    intro digit member
    exact isDigit_of_mem_digits wellFormed digit
      ((List.dropWhile_sublist _).mem (Decimal.mem_of_mem_trimZeros member))

/-- The value of a number with few digits is shown as it was typed. -/
theorem reads_text_decimal (few : significantDigits (number whole fraction).text ≤ 15)
    (range : (decimal whole fraction).value = 0 ∨
      2 ^ (-1022 : ℤ) ≤ (decimal whole fraction).value ∧
        (decimal whole fraction).value ≤ (2 ^ 53 - 1) * 2 ^ (971 : ℤ)) :
    ∃ read, Decimal.ofText? (Binary64.ofDecimal (decimal whole fraction)).text = some read ∧
      read.value = (decimal whole fraction).value := by
  obtain ⟨significant, same, small⟩ := exists_significant wellFormed
  have digits : significant.digits < 10 ^ 15 :=
    small.trans_le (Nat.pow_le_pow_right (by decide) few)
  rw [← same] at range
  rw [Binary64.text_of_not_negative (Binary64.ofDecimal_not_negative _),
    Binary64.magnitude_ofDecimal, ← Decimal.magnitude_eq_of_value_eq same, ← same]
  exact Decimal.reads_text_magnitude digits range

end Lexeme

theorem Token.display_ofLexeme_number {whole fraction : Bytes}
    (wellFormed : (Lexeme.number whole fraction).WellFormed) (line : ℕ) :
    (Token.ofLexeme (.number whole fraction) line).display =
      ascii "NUMBER " ++ (Lexeme.number whole fraction).text ++ [space] ++
        (Binary64.ofDecimal (Lexeme.decimal whole fraction)).text := by
  have nonempty : (Lexeme.number whole fraction).text ≠ [] :=
    List.append_ne_nil_of_left_ne_nil wellFormed.1 _
  have name : ascii "NUMBER " = ascii "NUMBER" ++ [space] := by decide
  generalize isValue : Binary64.ofDecimal (Lexeme.decimal whole fraction) = value
  rw [display, ofLexeme, if_neg nonempty, Lexeme.literal?, isValue, name, Lexeme.kind, Kind.name]
  simp only [Literal.text, List.append_assoc, List.cons_append, List.nil_append]

/-- What is typed is what is displayed. -/
theorem scan_number_display {source : Bytes} {token : Token}
    (member : token ∈ (scan source).tokens) (isNumber : token.kind = .number) :
    ∃ typed shown, Decimal.ofText? token.lexeme = some typed ∧
      token.display = ascii "NUMBER " ++ token.lexeme ++ [space] ++ shown ∧
      (significantDigits token.lexeme ≤ 15 →
        typed.value = 0 ∨
          2 ^ (-1022 : ℤ) ≤ typed.value ∧ typed.value ≤ (2 ^ 53 - 1) * 2 ^ (971 : ℤ) →
        ∃ read, Decimal.ofText? shown = some read ∧ read.value = typed.value) := by
  obtain ⟨part, line, wellFormed, isToken⟩ := exists_lexeme_of_mem_tokens member (by
    rw [isNumber]
    nofun)
  subst isToken
  obtain ⟨whole, fraction, rfl⟩ := Lexeme.exists_digits_of_kind isNumber
  refine ⟨Lexeme.decimal whole fraction, (Binary64.ofDecimal (Lexeme.decimal whole fraction)).text,
    Lexeme.ofText?_text_number wellFormed, ?_, Lexeme.reads_text_decimal wellFormed⟩
  exact Token.display_ofLexeme_number wellFormed line

/-- A power of ten whose double is below it. -/
theorem scan_number_display_powerOfTen :
    ∃ token ∈ (scan (ascii "100000000000000000000000.0;")).tokens, token.kind = .number ∧
      token.display = ascii "NUMBER 100000000000000000000000.0 1e+23" ∧
      ∃ read, Decimal.ofText? (ascii "1e+23") = some read ∧ read.value = 10 ^ 23 := by
  have member : Token.ofLexeme (.number (ascii "100000000000000000000000") (ascii "0")) 1 ∈
      (scan (ascii "100000000000000000000000.0;")).tokens := by
    decide +kernel
  have display :
      (Token.ofLexeme (.number (ascii "100000000000000000000000") (ascii "0")) 1).display =
        ascii "NUMBER 100000000000000000000000.0" ++ [space] ++ ascii "1e+23" := by
    decide +kernel
  obtain ⟨typed, shown, isTyped, isShown, exactly⟩ := scan_number_display member rfl
  have spelled : typed = ⟨10 ^ 24, -1⟩ :=
    Option.some.inj (isTyped.symm.trans (by decide +kernel))
  have size : typed.value = 10 ^ 23 := by
    rw [spelled, Decimal.value]
    norm_num
  have same : shown = ascii "1e+23" := List.append_cancel_left (isShown.symm.trans display)
  have lower : (2 : ℚ) ^ (-1022 : ℤ) ≤ 10 ^ 23 :=
    (zpow_le_one_of_nonpos₀ (by norm_num) (by norm_num)).trans (by norm_num)
  have upper : (10 : ℚ) ^ 23 ≤ (2 ^ 53 - 1) * 2 ^ (971 : ℤ) := by
    calc (10 : ℚ) ^ 23 ≤ (2 ^ 53 - 1) * 2 ^ (30 : ℤ) := by norm_num
      _ ≤ (2 ^ 53 - 1) * 2 ^ (971 : ℤ) :=
        mul_le_mul_of_nonneg_left (zpow_le_zpow_right₀ (by norm_num) (by norm_num)) (by norm_num)
  rw [same, size] at exactly
  exact ⟨_, member, rfl, display, exactly (by decide +kernel) (.inr ⟨lower, upper⟩)⟩

end ScriptLexer
