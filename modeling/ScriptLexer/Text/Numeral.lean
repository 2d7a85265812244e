import ScriptLexer.Text.Byte

namespace ScriptLexer.Numeral

/-! Decimal numerals.  `ofNat` writes the digits of a number without leading
zeros and `value` reads digits, with leading zeros or not.
-/

def ofNat (number : Nat) : Bytes :=
  (Nat.toDigits 10 number).map Char.toUInt8

def digitValue (digit : UInt8) : Nat :=
  digit.toNat - Byte.zero.toNat

def value (digits : Bytes) : Nat :=
  digits.foldl (fun total digit => 10 * total + digitValue digit) 0

/-- Digits behind a point.  The point is left out where there are none. -/
def pointed (digits : Bytes) : Bytes :=
  if digits = [] then [] else Byte.point :: digits

/-- The byte that stands for a digit below ten. -/
def digit (number : Nat) : UInt8 :=
  number.digitChar.toUInt8

theorem digit_facts {number : Nat} (bound : number < 10) :
    Byte.isDigit (digit number) = true ∧ digitValue (digit number) = number := by
  have digits : number = 0 ∨ number = 1 ∨ number = 2 ∨ number = 3 ∨ number = 4 ∨
      number = 5 ∨ number = 6 ∨ number = 7 ∨ number = 8 ∨ number = 9 := by omega
  rcases digits with rfl | rfl | rfl | rfl | rfl | rfl | rfl | rfl | rfl | rfl <;> decide

theorem ofNat_of_lt {number : Nat} (small : number < 10) : ofNat number = [digit number] := by
  simp [ofNat, digit, Nat.toDigits_of_lt_base small]

/-- The last digit is the remainder by ten and the digits before it are those
of the quotient. -/
theorem ofNat_of_le {number : Nat} (large : 10 ≤ number) :
    ofNat number = ofNat (number / 10) ++ [digit (number % 10)] := by
  simp [ofNat, digit, Nat.toDigits_of_base_le (by decide) large]

theorem isDigit_of_mem_ofNat {number : Nat} {byte : UInt8} (member : byte ∈ ofNat number) :
    Byte.isDigit byte = true := by
  induction number using Nat.strongRecOn with
  | ind number ih =>
      by_cases small : number < 10
      · rw [ofNat_of_lt small, List.mem_singleton] at member
        exact member ▸ (digit_facts small).1
      · rw [ofNat_of_le (by omega), List.mem_append, List.mem_singleton] at member
        rcases member with before | last
        · exact ih (number / 10) (by omega) before
        · exact last ▸ (digit_facts (Nat.mod_lt _ (by decide))).1

theorem value_concat (digits : Bytes) (last : UInt8) :
    value (digits ++ [last]) = 10 * value digits + digitValue last := by
  simp [value]

theorem value_ofNat (number : Nat) : value (ofNat number) = number := by
  induction number using Nat.strongRecOn with
  | ind number ih =>
      by_cases small : number < 10
      · simp [ofNat_of_lt small, value, (digit_facts small).2]
      · have last := (digit_facts (Nat.mod_lt number (by decide : 0 < 10))).2
        rw [ofNat_of_le (by omega), value_concat, ih (number / 10) (by omega), last]
        omega

theorem length_ofNat_pos (number : Nat) : 0 < (ofNat number).length := by
  simp [ofNat, Nat.length_toDigits_pos]

end ScriptLexer.Numeral
