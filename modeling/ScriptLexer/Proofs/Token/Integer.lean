import Mathlib
import ScriptLexer.Proofs.Number.Integer
import ScriptLexer.Proofs.Number.Nearest
import ScriptLexer.Proofs.Token.Display

namespace ScriptLexer

open Byte

/-! Whole numbers in print.  Zeros at the end are not significant, so that a multiple of ten is
found at a precision that does not reach down to the units and is written with an exponent.
-/

namespace Decimal

variable {count zeros : ℕ}

theorem exponentText_natCast (exponent : ℕ) :
    exponentText exponent = ascii "e+" ++
      List.replicate (2 - (Numeral.ofNat exponent).length) zero ++ Numeral.ofNat exponent := by
  rw [exponentText, if_neg (not_lt.mpr (Int.natCast_nonneg exponent)), Int.natAbs_natCast]

/-- Digits that end at the units are written as they are. -/
theorem positional_of_length {digits : Bytes} {leading : ℕ} (ends : digits.length = leading + 1) :
    positional digits leading = digits := by
  rw [positional, if_neg (not_lt.mpr (Int.natCast_nonneg leading)), Int.toNat_natCast, ← ends]
  simp only [List.take_length, List.drop_length, Nat.sub_self, List.replicate_zero,
    Numeral.pointed, if_true, List.append_nil]

variable (trimmed : ¬ 10 ∣ count)
include trimmed

theorem text_units :
    (⟨count, 0⟩ : Decimal).text (Numeral.ofNat count).length = Numeral.ofNat count := by
  have some := Numeral.length_ofNat_pos count
  have leading : 0 + ((Numeral.ofNat count).length : ℤ) - 1 =
      ((Numeral.ofNat count).length - 1 : ℕ) := by omega
  have isPositional : (-4 : ℤ) ≤ ((Numeral.ofNat count).length - 1 : ℕ) ∧
      (((Numeral.ofNat count).length - 1 : ℕ) : ℤ) < (Numeral.ofNat count).length := by omega
  simp only [text, leading]
  rw [if_pos isPositional, trimZeros_ofNat trimmed]
  exact positional_of_length (by omega)

theorem text_tens (some : zeros ≠ 0) :
    (⟨count, zeros⟩ : Decimal).text (Numeral.ofNat count).length =
      scientific (Numeral.ofNat count)
        ((Numeral.ofNat (count * 10 ^ zeros)).length - 1 : ℕ) := by
  have positive := Numeral.pos_of_not_dvd trimmed
  have leading : (zeros : ℤ) + (Numeral.ofNat count).length - 1 =
      ((Numeral.ofNat (count * 10 ^ zeros)).length - 1 : ℕ) := by
    have first := Numeral.length_ofNat_pos count
    rw [Numeral.ofNat_mul_pow positive, List.length_append, List.length_replicate]
    omega
  have notPositional : ¬ ((-4 : ℤ) ≤ zeros + (Numeral.ofNat count).length - 1 ∧
      (zeros : ℤ) + (Numeral.ofNat count).length - 1 < (Numeral.ofNat count).length) := by omega
  simp only [text]
  rw [if_neg notPositional, trimZeros_ofNat trimmed, leading]

end Decimal

namespace Magnitude

variable {magnitude count zeros : ℕ}

/-- The text of a whole number, by its digits without the zeros at its end. -/
theorem text_of_value (isValue : value magnitude = (count * 10 ^ zeros : ℕ))
    (small : count * 10 ^ zeros ≤ 2 ^ 53) (trimmed : ¬ 10 ∣ count) :
    text magnitude = (⟨count, zeros⟩ : Decimal).text (Numeral.ofNat count).length := by
  have positive := Numeral.pos_of_not_dvd trimmed
  have some : 0 < magnitude := pos_of_value_eq isValue
    (Nat.mul_pos positive (Nat.pow_pos (by decide)))
  have finite := lt_infinity_of_value_eq isValue small
  rw [text, if_neg some.ne', if_pos finite]
  simp only [Decimal.precision_eq_length isValue small trimmed, significant_eq isValue positive]

/-- A positive number, and what is left without the zeros at its end. -/
theorem exists_trimmed (positive : 0 < count) :
    ∃ front zeros, count = front * 10 ^ zeros ∧ ¬ 10 ∣ front ∧
      Decimal.trimZeros (Numeral.ofNat count) = Numeral.ofNat front := by
  obtain ⟨zeros, front, trimmed, split⟩ :=
    Nat.exists_eq_pow_mul_and_not_dvd positive.ne' 10 (by decide)
  rw [mul_comm] at split
  refine ⟨front, zeros, split, trimmed, ?_⟩
  rw [split, Numeral.ofNat_mul_pow (Numeral.pos_of_not_dvd trimmed), Decimal.trimZeros_append_replicate,
    Decimal.trimZeros_ofNat trimmed]

end Magnitude

namespace Token

/-- The value comes behind all else. -/
theorem display_eq_append {token : Token} {value : Literal} (isValue : token.literal = some value) :
    token.display = Token.display { token with literal := none } ++ space :: value.text := by
  rw [display, display, isValue, List.append_nil]

/-- A whole number is displayed by its digits, but a multiple of ten is displayed by those before
the zeros at its end, with an exponent. -/
theorem display_integer {count : ℕ} {token : Token} (small : count ≤ 2 ^ 53)
    (isLiteral : token.literal = some (.number (.ofDecimal ⟨count, 0⟩))) :
    (∀ number : Binary64,
        number = .ofDecimal ⟨count, 0⟩ ↔ number.negative = false ∧ number.value = count) ∧
      Magnitude.precision (Binary64.ofDecimal ⟨count, 0⟩).magnitude =
        max 1 (Decimal.trimZeros (Numeral.ofNat count)).length ∧
      ∃ shown, token.display = Token.display { token with literal := none } ++ space :: shown ∧
        (count = 0 ∨ ¬ 10 ∣ count → shown = Numeral.ofNat count) ∧
        (0 < count → 10 ∣ count →
          ∃ first others exponent,
            Decimal.trimZeros (Numeral.ofNat count) = first :: others ∧
            exponent = Numeral.ofNat ((Numeral.ofNat count).length - 1) ∧
            shown = first :: Numeral.pointed others ++ ascii "e+" ++
              List.replicate (2 - exponent.length) zero ++ exponent) := by
  refine ⟨fun number => Binary64.eq_ofDecimal_iff small, ?_⟩
  have isShown := display_eq_append isLiteral
  rw [Literal.text, Binary64.text_of_not_negative (Binary64.ofDecimal_not_negative _),
    Binary64.magnitude_ofDecimal] at isShown
  rw [Binary64.magnitude_ofDecimal]
  have isValue := Decimal.value_magnitude_whole small
  rcases Nat.eq_zero_or_pos count with rfl | positive
  · exact ⟨by decide +kernel, _, isShown, fun _ => by decide +kernel,
      fun positive => absurd positive (Nat.lt_irrefl 0)⟩
  · generalize (⟨count, 0⟩ : Decimal).magnitude = magnitude at *
    obtain ⟨front, zeros, rfl, trimmed, isTrimmed⟩ := Magnitude.exists_trimmed positive
    have some := Numeral.length_ofNat_pos front
    rw [Decimal.precision_eq_length isValue small trimmed, isTrimmed,
      Nat.max_eq_right some]
    rw [Magnitude.text_of_value isValue small trimmed] at isShown
    refine ⟨rfl, _, isShown, ?_, ?_⟩
    · intro plain
      have noZeros : zeros = 0 := by
        by_contra someZeros
        have tens : 10 ∣ front * 10 ^ zeros := (dvd_pow_self 10 someZeros).mul_left front
        exact plain.elim positive.ne' fun noTens => noTens tens
      rw [noZeros, Nat.pow_zero, Nat.mul_one]
      exact Decimal.text_units trimmed
    · intro _ tens
      have someZeros : zeros ≠ 0 := by
        rintro rfl
        rw [Nat.pow_zero, Nat.mul_one] at tens
        exact trimmed tens
      obtain ⟨first, others, isCons⟩ := List.exists_cons_of_length_pos some
      refine ⟨first, others, _, isCons, rfl, ?_⟩
      rw [Decimal.text_tens trimmed someZeros, Decimal.scientific, isCons,
        Decimal.exponentText_natCast]
      simp only [List.take_succ_cons, List.take_zero, List.drop_succ_cons, List.drop_zero,
        List.append_assoc, List.cons_append, List.nil_append]

/-- The last multiple of ten below the limit. -/
theorem display_integer_lastTen :
    ∃ token ∈ (scan (ascii "9007199254740990;")).tokens,
      token.literal = some (.number (.ofDecimal ⟨9007199254740990, 0⟩)) ∧
        Magnitude.precision (Binary64.ofDecimal ⟨9007199254740990, 0⟩).magnitude = 15 ∧
        token.display = ascii "NUMBER 9007199254740990 9.00719925474099e+15" := by
  have member : Token.ofLexeme (.number (ascii "9007199254740990") []) 1 ∈
      (scan (ascii "9007199254740990;")).tokens := by
    decide +kernel
  have isLiteral : (Token.ofLexeme (.number (ascii "9007199254740990") []) 1).literal =
      some (.number (.ofDecimal ⟨9007199254740990, 0⟩)) := by
    decide +kernel
  obtain ⟨_, precision, shown, isShown, _, tens⟩ := display_integer (by decide) isLiteral
  obtain ⟨first, others, exponent, isCons, isExponent, isText⟩ := tens (by decide) (by decide)
  have digits : Decimal.trimZeros (Numeral.ofNat 9007199254740990) =
      0x39 :: ascii "00719925474099" := by
    decide +kernel
  have places : Numeral.ofNat ((Numeral.ofNat 9007199254740990).length - 1) = ascii "15" := by
    decide +kernel
  obtain ⟨rfl, rfl⟩ := List.cons.inj (isCons.symm.trans digits)
  rw [isExponent.trans places] at isText
  refine ⟨_, member, isLiteral, precision.trans (by rw [digits]; rfl), ?_⟩
  rw [isShown, isText]
  decide +kernel

end Token

end ScriptLexer
