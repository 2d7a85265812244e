import Mathlib
import ScriptLexer.Number.Layout

namespace ScriptLexer

open Byte

/-! Digits side by side, and how many of them a number needs. -/

namespace Numeral

theorem value_append (front back : Bytes) :
    value (front ++ back) = value front * 10 ^ back.length + value back := by
  induction back using List.reverseRecOn with
  | nil => simp [value]
  | append_singleton back last ih =>
      rw [← List.append_assoc, value_concat, ih, value_concat, List.length_append,
        List.length_singleton, Nat.pow_succ]
      ring

theorem value_replicate_zero (count : ℕ) : value (List.replicate count zero) = 0 := by
  induction count with
  | zero => rfl
  | succ count ih =>
      rw [List.replicate_succ', value_concat, ih]
      rfl

theorem value_append_zeros (digits : Bytes) (count : ℕ) :
    value (digits ++ List.replicate count zero) = value digits * 10 ^ count := by
  rw [value_append, value_replicate_zero, List.length_replicate, Nat.add_zero]

theorem value_zeros_append (count : ℕ) (digits : Bytes) :
    value (List.replicate count zero ++ digits) = value digits := by
  rw [value_append, value_replicate_zero, Nat.zero_mul, Nat.zero_add]

theorem value_dropWhile_zero (digits : Bytes) :
    value (digits.dropWhile (· == zero)) = value digits := by
  induction digits with
  | nil => rfl
  | cons digit digits ih =>
      rw [List.dropWhile_cons]
      split
      · next isZero =>
          rw [ih, eq_of_beq isZero]
          exact (value_zeros_append 1 digits).symm
      · rfl

theorem digitValue_lt {digit : UInt8} (isDigit : Byte.isDigit digit = true) :
    digitValue digit < 10 := by
  have bounds := isDigit_iff.mp isDigit
  have start : zero.toNat = 48 := rfl
  rw [digitValue, start]
  omega

theorem value_lt {digits : Bytes} (areDigits : ∀ digit ∈ digits, isDigit digit = true) :
    value digits < 10 ^ digits.length := by
  induction digits using List.reverseRecOn with
  | nil => decide
  | append_singleton digits last ih =>
      rw [List.forall_mem_append, List.forall_mem_singleton] at areDigits
      have before := ih areDigits.1
      have behind := digitValue_lt areDigits.2
      rw [value_concat, List.length_append, List.length_singleton, Nat.pow_succ]
      omega

/-- Numerals are as long as the size of the number asks for. -/
theorem pow_le_and_lt_pow {number : ℕ} (positive : 0 < number) :
    10 ^ ((ofNat number).length - 1) ≤ number ∧ number < 10 ^ (ofNat number).length := by
  induction number using Nat.strongRecOn with
  | ind number ih =>
      by_cases small : number < 10
      · rw [ofNat_of_lt small]
        exact ⟨positive, small⟩
      · obtain ⟨lower, upper⟩ := ih (number / 10) (by omega) (by omega)
        have some := length_ofNat_pos (number / 10)
        have shorter : 10 ^ (ofNat (number / 10)).length =
            10 ^ ((ofNat (number / 10)).length - 1) * 10 := by
          rw [← Nat.pow_succ, Nat.succ_eq_add_one, Nat.sub_add_cancel some]
        rw [ofNat_of_le (by omega), List.length_append, List.length_singleton,
          Nat.add_sub_cancel, Nat.pow_succ]
        omega

theorem pos_of_not_dvd {number : ℕ} (trimmed : ¬ 10 ∣ number) : 0 < number :=
  Nat.pos_of_ne_zero fun zero => trimmed (zero ▸ dvd_zero 10)

/-- Multiplying by ten writes one more zero. -/
theorem ofNat_mul_pow {number : ℕ} (positive : 0 < number) (count : ℕ) :
    ofNat (number * 10 ^ count) = ofNat number ++ List.replicate count zero := by
  induction count with
  | zero => rw [Nat.pow_zero, Nat.mul_one, List.replicate_zero, List.append_nil]
  | succ count ih =>
      have large : 0 < number * 10 ^ count := Nat.mul_pos positive (Nat.pow_pos (by decide))
      rw [Nat.pow_succ, ← Nat.mul_assoc, ofNat_of_le (by omega), Nat.mul_div_cancel _ (by decide),
        Nat.mul_mod_left, ih, List.append_assoc, List.replicate_succ']
      rfl

theorem length_ofNat_le {number count : ℕ} (some : 1 ≤ count) (few : number < 10 ^ count) :
    (ofNat number).length ≤ count := by
  rcases Nat.eq_zero_or_pos number with rfl | positive
  · exact some
  · have lower := (pow_le_and_lt_pow positive).1
    have shorter := (Nat.pow_lt_pow_iff_right (by decide)).mp (lower.trans_lt few)
    omega

/-- The point is no digit. -/
theorem filter_isDigit_pointed (digits : Bytes) :
    (pointed digits).filter isDigit = digits.filter isDigit := by
  by_cases empty : digits = []
  · simp [empty, pointed]
  · have notDigit : isDigit point = false := by decide
    simp [empty, pointed, notDigit]

end Numeral

namespace Decimal

/-- Zeros are all that is cut off. -/
theorem trimZeros_append_zeros (digits : Bytes) :
    trimZeros digits ++ List.replicate (digits.length - (trimZeros digits).length) zero =
      digits := by
  have split := List.takeWhile_append_dropWhile (p := (· == zero)) (l := digits.reverse)
  have zeros : digits.reverse.takeWhile (· == zero) =
      List.replicate (digits.reverse.takeWhile (· == zero)).length zero := by
    apply List.eq_replicate_of_mem
    intro byte member
    have isZero := List.mem_takeWhile_imp member
    exact eq_of_beq isZero
  have lengths := congrArg List.length split
  rw [List.length_append, List.length_reverse] at lengths
  have count : digits.length - (trimZeros digits).length =
      (digits.reverse.takeWhile (· == zero)).length := by
    rw [trimZeros, List.length_reverse]
    omega
  have back := congrArg List.reverse split
  rw [List.reverse_append, List.reverse_reverse, zeros, List.reverse_replicate] at back
  rw [count]
  exact back

theorem value_trimZeros (digits : Bytes) :
    Numeral.value digits =
      Numeral.value (trimZeros digits) * 10 ^ (digits.length - (trimZeros digits).length) := by
  rw [← Numeral.value_append_zeros, trimZeros_append_zeros]

theorem trimZeros_append_replicate (digits : Bytes) (count : ℕ) :
    trimZeros (digits ++ List.replicate count zero) = trimZeros digits := by
  rw [trimZeros, List.reverse_append, List.reverse_replicate, List.dropWhile_append_of_pos,
    trimZeros]
  intro byte member
  rw [List.eq_of_mem_replicate member]
  rfl

/-- A number that is no multiple of ten has no zero at its end. -/
theorem trimZeros_ofNat {number : ℕ} (trimmed : ¬ 10 ∣ number) :
    trimZeros (Numeral.ofNat number) = Numeral.ofNat number := by
  have last : Numeral.digit (number % 10) ≠ zero := by
    intro isZero
    have value := (Numeral.digit_facts (Nat.mod_lt number (by decide : 0 < 10))).2
    rw [isZero] at value
    exact trimmed (Nat.dvd_of_mod_eq_zero value.symm)
  have split : ∃ front, Numeral.ofNat number = front ++ [Numeral.digit (number % 10)] := by
    by_cases small : number < 10
    · exact ⟨[], by rw [Numeral.ofNat_of_lt small, Nat.mod_eq_of_lt small, List.nil_append]⟩
    · exact ⟨_, Numeral.ofNat_of_le (not_lt.mp small)⟩
  obtain ⟨front, isSplit⟩ := split
  rw [isSplit, trimZeros, List.reverse_append, List.reverse_singleton, List.singleton_append,
    List.dropWhile_cons_of_neg (by rwa [beq_iff_eq]), List.reverse_cons, List.reverse_reverse]

theorem length_trimZeros_le (digits : Bytes) : (trimZeros digits).length ≤ digits.length := by
  have lengths := congrArg List.length (trimZeros_append_zeros digits)
  rw [List.length_append] at lengths
  omega

theorem mem_of_mem_trimZeros {digits : Bytes} {byte : UInt8} (member : byte ∈ trimZeros digits) :
    byte ∈ digits := by
  rw [← trimZeros_append_zeros digits]
  exact List.mem_append_left _ member

theorem trimZeros_ne_nil {digits : Bytes} (nonzero : Numeral.value digits ≠ 0) :
    trimZeros digits ≠ [] := by
  intro empty
  rw [value_trimZeros, empty] at nonzero
  exact nonzero (Nat.zero_mul _)

end Decimal

end ScriptLexer
