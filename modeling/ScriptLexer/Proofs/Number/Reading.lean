import Mathlib
import ScriptLexer.Number.Layout
import ScriptLexer.Proofs.Number.Precision
import ScriptLexer.Proofs.Text.Front

namespace ScriptLexer

open Byte

/-! Reading number texts.  A text is a sign, digits with or without a point among them, and an
exponent, where only the digits are needed; infinity has a name.  What a double looks like in
print is read as that double again.
-/

namespace Numeral

/-- Whether a text begins with a minus sign, and what stands behind its sign. -/
def signed (text : Bytes) : Bool × Bytes :=
  if startsWith (· == 0x2D) text then (true, text.drop 1)
  else if startsWith (· == 0x2B) text then (false, text.drop 1)
  else (false, text)

end Numeral

namespace Decimal

/-- The digits behind a point, if there is one, and what stands behind them. -/
def splitFraction (text : Bytes) : Bytes × Bytes :=
  if startsWith (· == point) text then
    ((text.drop 1).takeWhile isDigit, (text.drop 1).dropWhile isDigit)
  else ([], text)

/-- The exponent that a text spells.  Without one it is zero. -/
def ofExponent? (text : Bytes) : Option ℤ :=
  if text = [] then some 0
  else
    let (negative, digits) := Numeral.signed (text.drop 1)
    if startsWith (· == 0x65) text ∧ digits ≠ [] ∧ digits.all isDigit then
      some (if negative then -Numeral.value digits else Numeral.value digits)
    else none

/-- The decimal that a text without a sign spells. -/
def ofText? (text : Bytes) : Option Decimal :=
  let whole := text.takeWhile isDigit
  let (fraction, rest) := splitFraction (text.dropWhile isDigit)
  if whole ++ fraction = [] then none
  else (ofExponent? rest).map fun exponent =>
    ⟨Numeral.value (whole ++ fraction), exponent - fraction.length⟩

theorem ofText?_eq_none {text : Bytes} (noDigit : startsWith isDigit text = false)
    (noPoint : startsWith (· == point) text = false) : ofText? text = none := by
  have whole := takeWhile_eq_nil_iff_startsWith.mpr noDigit
  have rest : text.dropWhile isDigit = text := by
    have split := List.takeWhile_append_dropWhile (p := isDigit) (l := text)
    rwa [whole, List.nil_append] at split
  rw [ofText?, whole, rest, splitFraction, noPoint]
  rfl

/-- A text that spells a decimal has no sign. -/
theorem signed_of_ofText? {text : Bytes} {read : Decimal} (isRead : ofText? text = some read) :
    Numeral.signed text = (false, text) := by
  have unsigned {sign : UInt8} (noDigit : isDigit sign = false)
      (noPoint : (sign == point) = false) : startsWith (· == sign) text = false := by
    cases text with
    | nil => rfl
    | cons byte rest =>
        rw [startsWith_cons, beq_eq_false_iff_ne]
        rintro rfl
        have notRead : ofText? (byte :: rest) = none := ofText?_eq_none noDigit noPoint
        rw [notRead] at isRead
        contradiction
  rw [Numeral.signed, unsigned (by decide) (by decide), unsigned (by decide) (by decide)]
  rfl

theorem splitFraction_pointed {fraction tail : Bytes}
    (digits : ∀ byte ∈ fraction, isDigit byte = true) (stops : startsWith isDigit tail = false)
    (noPoint : startsWith (· == point) tail = false) :
    splitFraction (Numeral.pointed fraction ++ tail) = (fraction, tail) := by
  by_cases empty : fraction = []
  · simp [empty, Numeral.pointed, splitFraction, noPoint]
  · simp [empty, Numeral.pointed, splitFraction, takeWhile_append_of_stops digits stops,
      dropWhile_append_of_stops digits stops]

/-- Digits around a point are read up to the exponent. -/
theorem ofText?_append {whole fraction tail : Bytes}
    (digits : ∀ byte ∈ whole ++ fraction, isDigit byte = true) (nonempty : whole ++ fraction ≠ [])
    (stops : startsWith isDigit tail = false) (noPoint : startsWith (· == point) tail = false) :
    ofText? (whole ++ Numeral.pointed fraction ++ tail) = (ofExponent? tail).map fun exponent =>
      ⟨Numeral.value (whole ++ fraction), exponent - fraction.length⟩ := by
  rw [List.forall_mem_append] at digits
  have pointStops : startsWith isDigit (Numeral.pointed fraction ++ tail) = false := by
    by_cases empty : fraction = []
    · simp [empty, Numeral.pointed, stops]
    · have notDigit : isDigit point = false := by decide
      simp [empty, Numeral.pointed, notDigit]
  rw [List.append_assoc, ofText?, takeWhile_append_of_stops digits.1 pointStops,
    dropWhile_append_of_stops digits.1 pointStops, splitFraction_pointed digits.2 stops noPoint]
  exact if_neg nonempty

/-- A text without an exponent. -/
theorem ofText?_pointed {whole fraction : Bytes}
    (digits : ∀ byte ∈ whole ++ fraction, isDigit byte = true)
    (nonempty : whole ++ fraction ≠ []) :
    ofText? (whole ++ Numeral.pointed fraction) =
      some ⟨Numeral.value (whole ++ fraction), -fraction.length⟩ := by
  have read : ofText? (whole ++ Numeral.pointed fraction ++ []) = _ :=
    ofText?_append digits nonempty rfl rfl
  rw [List.append_nil] at read
  rw [read, ofExponent?, if_pos rfl, Option.map_some, zero_sub]

theorem isDigit_of_mem_replicate {count : ℕ} {byte : UInt8}
    (member : byte ∈ List.replicate count zero) : isDigit byte = true := by
  rw [List.eq_of_mem_replicate member]
  decide

theorem startsWith_exponentText (inClass : UInt8 → Bool) (exponent : ℤ) :
    startsWith inClass (exponentText exponent) = inClass 0x65 := by
  rw [exponentText]
  split <;> rfl

theorem ofExponent?_exponentText (exponent : ℤ) :
    ofExponent? (exponentText exponent) = some exponent := by
  set digits := List.replicate (2 - (Numeral.ofNat exponent.natAbs).length) zero ++
    Numeral.ofNat exponent.natAbs with areDigits
  have nonempty : digits ≠ [] :=
    List.append_ne_nil_of_right_ne_nil _
      (List.length_pos_iff.mp (Numeral.length_ofNat_pos exponent.natAbs))
  have all : digits.all isDigit = true := by
    rw [List.all_eq_true, areDigits, List.forall_mem_append]
    exact ⟨fun byte => isDigit_of_mem_replicate, fun byte => Numeral.isDigit_of_mem_ofNat⟩
  have size : Numeral.value digits = exponent.natAbs := by
    rw [areDigits, Numeral.value_zeros_append, Numeral.value_ofNat]
  have spelled : exponentText exponent =
      0x65 :: (if exponent < 0 then 0x2D else 0x2B) :: digits := by
    rw [exponentText, List.append_assoc, areDigits]
    split <;> rfl
  have sign : Numeral.signed ((if exponent < 0 then 0x2D else 0x2B) :: digits) =
      (decide (exponent < 0), digits) := by
    split
    · next negative => simp [Numeral.signed, negative]
    · next nonnegative => simp [Numeral.signed, nonnegative]
  rw [ofExponent?, spelled, if_neg (List.cons_ne_nil _ _), List.drop_one, List.tail_cons, sign]
  simp only [startsWith_cons, BEq.rfl, ne_eq, nonempty, not_false_eq_true, all, and_self, if_true,
    decide_eq_true_eq, size]
  congr 1
  omega

/-! The two ways to lay digits out.  In both they stand for the value that they have with the
first one at the place of `10 ^ leading`.
-/

variable {digits : Bytes} {leading : ℤ}

/-- Zeros fill up the places before the point that the digits do not reach. -/
theorem take_append_zeros_append_drop (digits : Bytes) (whole : ℕ) :
    digits.take whole ++ List.replicate (whole - digits.length) zero ++ digits.drop whole =
      digits ++ List.replicate (whole - digits.length) zero := by
  rcases Nat.le_total digits.length whole with short | long
  · rw [List.take_of_length_le short, List.drop_of_length_le short, List.append_nil]
  · rw [Nat.sub_eq_zero_of_le long, List.replicate_zero, List.append_nil, List.append_nil,
      List.take_append_drop]

theorem reads_positional (areDigits : ∀ digit ∈ digits, isDigit digit = true)
    (nonempty : digits ≠ []) :
    ∃ read, ofText? (positional digits leading) = some read ∧
      read.value = Numeral.value digits * 10 ^ (leading + 1 - digits.length) := by
  have length := List.length_pos_iff.mpr nonempty
  rw [positional]
  split
  · next small =>
      set zeros := (-leading - 1).toNat
      have all : ∀ byte ∈ [zero] ++ (List.replicate zeros zero ++ digits),
          isDigit byte = true := by
        rw [List.singleton_append, List.forall_mem_cons, List.forall_mem_append]
        exact ⟨by decide, fun byte => isDigit_of_mem_replicate, areDigits⟩
      have read := ofText?_pointed all (List.cons_ne_nil _ _)
      refine ⟨_, read, ?_⟩
      have size : Numeral.value ([zero] ++ (List.replicate zeros zero ++ digits)) =
          Numeral.value digits := by
        rw [← List.append_assoc, List.singleton_append, ← List.replicate_succ,
          Numeral.value_zeros_append]
      have places : -((List.replicate zeros zero ++ digits).length : ℤ) =
          leading + 1 - digits.length := by
        rw [List.length_append, List.length_replicate]
        omega
      rw [value, size, places]
  · next large =>
      set whole := leading.toNat + 1
      have regrouped := take_append_zeros_append_drop digits whole
      set zeros := whole - digits.length
      have all : ∀ byte ∈ digits.take whole ++ List.replicate zeros zero ++ digits.drop whole,
          isDigit byte = true := by
        rw [regrouped, List.forall_mem_append]
        exact ⟨areDigits, fun byte => isDigit_of_mem_replicate⟩
      have read := ofText?_pointed all (by
        rw [regrouped]
        exact List.append_ne_nil_of_left_ne_nil nonempty _)
      refine ⟨_, read, ?_⟩
      have places : (zeros : ℤ) + -((digits.drop whole).length : ℤ) =
          leading + 1 - digits.length := by
        rw [List.length_drop]
        omega
      rw [value, regrouped, Numeral.value_append_zeros, Nat.cast_mul, Nat.cast_pow, mul_assoc,
        Nat.cast_ofNat, ← zpow_natCast, ← zpow_add₀ (by norm_num), places]

theorem reads_scientific (areDigits : ∀ digit ∈ digits, isDigit digit = true)
    (nonempty : digits ≠ []) :
    ∃ read, ofText? (scientific digits leading) = some read ∧
      read.value = Numeral.value digits * 10 ^ (leading + 1 - digits.length) := by
  have regrouped : digits.take 1 ++ digits.drop 1 = digits := List.take_append_drop 1 digits
  have read := ofText?_append (regrouped.symm ▸ areDigits) (regrouped.symm ▸ nonempty)
    (startsWith_exponentText isDigit leading) (startsWith_exponentText (· == point) leading)
  rw [ofExponent?_exponentText, Option.map_some, regrouped] at read
  refine ⟨_, read, ?_⟩
  have places : leading - ((digits.drop 1).length : ℤ) = leading + 1 - digits.length := by
    have length := List.length_pos_iff.mpr nonempty
    rw [List.length_drop]
    omega
  rw [value, places]

/-- The digits that are written have the value of all digits in their places. -/
theorem value_trimZeros_ofNat (decimal : Decimal) :
    (Numeral.value (trimZeros (Numeral.ofNat decimal.digits)) : ℚ) *
      10 ^ (decimal.exponent + (Numeral.ofNat decimal.digits).length - 1 + 1 -
        (trimZeros (Numeral.ofNat decimal.digits)).length) = decimal.value := by
  have trimmed := value_trimZeros (Numeral.ofNat decimal.digits)
  have shorter := length_trimZeros_le (Numeral.ofNat decimal.digits)
  rw [Numeral.value_ofNat] at trimmed
  have places : decimal.exponent + (Numeral.ofNat decimal.digits).length - 1 + 1 -
      (trimZeros (Numeral.ofNat decimal.digits)).length =
      ((Numeral.ofNat decimal.digits).length -
        (trimZeros (Numeral.ofNat decimal.digits)).length : ℕ) + decimal.exponent := by
    omega
  rw [places, zpow_add₀ (by norm_num), zpow_natCast, ← mul_assoc, value]
  congr 1
  exact_mod_cast trimmed.symm

/-- The text of a decimal is read as its value. -/
theorem reads_text {decimal : Decimal} (positive : 0 < decimal.digits) (precision : ℕ) :
    ∃ read, ofText? (decimal.text precision) = some read ∧ read.value = decimal.value := by
  have areDigits : ∀ digit ∈ trimZeros (Numeral.ofNat decimal.digits), isDigit digit = true :=
    fun digit member => Numeral.isDigit_of_mem_ofNat (mem_of_mem_trimZeros member)
  have nonempty : trimZeros (Numeral.ofNat decimal.digits) ≠ [] :=
    trimZeros_ne_nil (by rw [Numeral.value_ofNat]; omega)
  rw [← decimal.value_trimZeros_ofNat, text]
  split
  · exact reads_positional areDigits nonempty
  · exact reads_scientific areDigits nonempty

end Decimal

namespace Magnitude

variable {magnitude : ℕ}

theorem digits_significant_pos {count : ℕ} (positive : 0 < magnitude) (some : 0 < count) :
    0 < (significant magnitude count).digits := by
  have rounding := two_mul_abs_value_roundedAt_sub_le magnitude
    (leadingExponent magnitude + 1 - count)
  have below := neg_abs_le ((significant magnitude count).value - value magnitude)
  have lead : (10 : ℚ) ^ (leadingExponent magnitude + 1 - (count : ℤ)) ≤ value magnitude :=
    (zpow_le_zpow_right₀ (by norm_num) (by omega)).trans (value_bounds positive).1
  have power : (0 : ℚ) < 10 ^ (leadingExponent magnitude + 1 - (count : ℤ)) :=
    zpow_pos (by norm_num) _
  by_contra none
  rw [not_lt, Nat.le_zero] at none
  have isZero : (significant magnitude count).value = 0 := by
    rw [Decimal.value, none, Nat.cast_zero, zero_mul]
  rw [← significant, isZero] at rounding
  rw [isZero] at below
  linarith

/-- The text of a magnitude is read as the value rounded to its precision. -/
theorem reads_text (positive : 0 < magnitude) (finite : magnitude < infinity) :
    ∃ read, Decimal.ofText? (text magnitude) = some read ∧
      read.value = (significant magnitude (precision magnitude)).value := by
  rw [text, if_neg positive.ne', if_pos finite]
  exact Decimal.reads_text (digits_significant_pos positive (precision_bounds magnitude).1) _

/-- The text of a finite magnitude reads back. -/
theorem reads_text_as_magnitude (finite : magnitude < infinity) :
    ∃ read, Decimal.ofText? (text magnitude) = some read ∧ read.magnitude = magnitude := by
  rcases Nat.eq_zero_or_pos magnitude with rfl | positive
  · exact ⟨⟨0, 0⟩, by decide, nearest_zero _⟩
  · obtain ⟨read, isRead, same⟩ := reads_text positive finite
    refine ⟨read, isRead, ?_⟩
    rw [Decimal.magnitude_eq_of_value_eq same]
    exact magnitude_significant_precision positive finite

/-- The precision is the first at which the text reads back. -/
theorem precision_eq_find_text (positive : 0 < magnitude) :
    precision magnitude = ((List.range' 1 maxPrecision).find? fun count =>
      (Decimal.ofText? ((significant magnitude count).text count)).map Decimal.magnitude ==
        some magnitude).getD maxPrecision := by
  rw [precision_eq_find]
  refine congrArg (Option.getD · maxPrecision) (List.find?_congr ?_)
  intro count member
  obtain ⟨read, isRead, same⟩ := Decimal.reads_text
    (digits_significant_pos positive (List.mem_range'_1.mp member).1) count
  rw [isRead, Option.map_some, Decimal.magnitude_eq_of_value_eq same, Option.some_beq_some]

end Magnitude

namespace Binary64

def infinite : Binary64 := ⟨false, Magnitude.infinity, by decide⟩

/-- The double that a text without a sign spells. -/
def ofUnsigned? (text : Bytes) : Option Binary64 :=
  if text = ascii "inf" then some infinite else (Decimal.ofText? text).map ofDecimal

/-- The double that a text spells. -/
def ofText? (text : Bytes) : Option Binary64 :=
  let (negative, unsigned) := Numeral.signed text
  (ofUnsigned? unsigned).map fun number => { number with negative := negative }

theorem reads_unsigned {number : Binary64} (numeric : number.isNaN = false) :
    Numeral.signed (Magnitude.text number.magnitude) =
        (false, Magnitude.text number.magnitude) ∧
      ofUnsigned? (Magnitude.text number.magnitude) = some { number with negative := false } := by
  have reached : number.magnitude ≤ Magnitude.infinity :=
    Nat.not_lt.mp (of_decide_eq_false numeric)
  -- infinity has a name, and all others spell a decimal
  rcases Nat.lt_or_eq_of_le reached with finite | infinity
  · obtain ⟨read, isRead, same⟩ := Magnitude.reads_text_as_magnitude finite
    have unnamed : Magnitude.text number.magnitude ≠ ascii "inf" := by
      intro named
      rw [named, Decimal.ofText?_eq_none (by decide) (by decide)] at isRead
      contradiction
    refine ⟨Decimal.signed_of_ofText? isRead, ?_⟩
    rw [ofUnsigned?, if_neg unnamed, isRead, Option.map_some]
    simp only [ofDecimal, same]
  · have named : Magnitude.text number.magnitude = ascii "inf" := by
      rw [infinity]
      decide
    rw [named]
    refine ⟨by decide, ?_⟩
    rw [ofUnsigned?, if_pos rfl]
    simp only [infinite, infinity]

theorem ofText?_text {number : Binary64} (numeric : number.isNaN = false) :
    ofText? number.text = some number := by
  obtain ⟨unsigned, isRead⟩ := reads_unsigned numeric
  have sign : Numeral.signed number.text = (number.negative, Magnitude.text number.magnitude) := by
    rw [text]
    cases number.negative with
    | false => exact unsigned
    | true => rfl
  rw [ofText?, sign]
  simp only [isRead, Option.map_some]

/-- Numbers read back bit for bit, so that no two of them look the same. -/
theorem ofText?_text_ofBits (bits : UInt64) (numeric : (ofBits bits).isNaN = false) :
    (ofText? (ofBits bits).text).map toBits = some bits ∧
      ∀ other, (ofBits other).isNaN = false → (ofBits other).text = (ofBits bits).text →
        other = bits := by
  constructor
  · rw [ofText?_text numeric, Option.map_some, toBits_ofBits]
  · intro other otherNumeric same
    have read := ofText?_text otherNumeric
    rw [same, ofText?_text numeric, Option.some_inj] at read
    rw [← toBits_ofBits other, ← read, toBits_ofBits]

/-- The greatest number below zero. -/
theorem ofText?_text_greatestNegative :
    (ofBits 0x8000000000000001).isNaN = false ∧
      (ofBits 0x8000000000000001).text = ascii "-5e-324" ∧
      (ofText? (ofBits 0x8000000000000001).text).map toBits = some 0x8000000000000001 := by
  have numeric : (ofBits 0x8000000000000001).isNaN = false := by decide
  exact ⟨numeric, by decide +kernel, (ofText?_text_ofBits _ numeric).1⟩

end Binary64

end ScriptLexer
