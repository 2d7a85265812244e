import Mathlib
import ScriptLexer.Proofs.Number.Nearest
import ScriptLexer.Proofs.Token.Display

namespace ScriptLexer

/-! The values of number tokens.  Each is the double nearest to the number that the lexeme spells,
however many digits that takes, so that values depend on the spelled number alone and are in the
order of these numbers.  The conversion is exact (see `Literal.ofDigits?`): what is said here of
lexemes with more than about 16500 digits behind the point is said of correct rounding, and not of
LLVM, whose own conversion goes wrong there.
-/

/-- The number that the lexeme of a number token spells, and the value that is made of it. -/
theorem exists_spelled_of_mem_tokens {source : Bytes} {token : Token}
    (member : token ∈ (scan source).tokens) (isNumber : token.kind = .number) :
    ∃ spelled, Decimal.ofText? token.lexeme = some spelled ∧
      token.literal = some (.number (.ofDecimal spelled)) := by
  obtain ⟨part, line, wellFormed, isToken⟩ := exists_lexeme_of_mem_tokens member (by
    rw [isNumber]
    nofun)
  subst isToken
  obtain ⟨whole, fraction, rfl⟩ := Lexeme.exists_digits_of_kind isNumber
  exact ⟨Lexeme.decimal whole fraction, Lexeme.ofText?_text_number wellFormed, rfl⟩

theorem Decimal.isNearest_of_range {spelled : Decimal}
    (range : spelled.value = 0 ∨
      2 ^ (-1022 : ℤ) ≤ spelled.value ∧ spelled.value ≤ (2 ^ 53 - 1) * 2 ^ (971 : ℤ)) :
    (Binary64.ofDecimal spelled).IsNearest spelled.value := by
  apply Binary64.isNearest_ofDecimal
  rcases range with isZero | ⟨_, atMost⟩
  · rw [magnitude_of_value_zero isZero]
    decide
  · exact magnitude_lt_infinity atMost

/-- Number tokens, of the same scan or of two, have the values nearest to what they spell, ties to
even, as `getAsDouble` is documented to round. -/
theorem scan_numbers_rounded {source otherSource : Bytes} {token other : Token}
    (member : token ∈ (scan source).tokens) (isNumber : token.kind = .number)
    (otherMember : other ∈ (scan otherSource).tokens) (otherIsNumber : other.kind = .number) :
    ∃ (spelled otherSpelled : Decimal) (number otherNumber : Binary64),
      (Decimal.ofText? token.lexeme = some spelled ∧
        token.literal = some (.number number)) ∧
      (Decimal.ofText? other.lexeme = some otherSpelled ∧
        other.literal = some (.number otherNumber)) ∧
      (spelled.value = 0 ∨
          2 ^ (-1022 : ℤ) ≤ spelled.value ∧ spelled.value ≤ (2 ^ 53 - 1) * 2 ^ (971 : ℤ) →
        number.negative = false ∧ number.isNaN = false ∧ number.IsNearest spelled.value) ∧
      (spelled.value = otherSpelled.value → token.literal = other.literal) ∧
      (spelled.value ≤ otherSpelled.value → number.value ≤ otherNumber.value) := by
  obtain ⟨spelled, isSpelled, literal⟩ := exists_spelled_of_mem_tokens member isNumber
  obtain ⟨otherSpelled, otherIsSpelled, otherLiteral⟩ :=
    exists_spelled_of_mem_tokens otherMember otherIsNumber
  refine ⟨spelled, otherSpelled, .ofDecimal spelled, .ofDecimal otherSpelled,
    ⟨isSpelled, literal⟩, ⟨otherIsSpelled, otherLiteral⟩, ?_, ?_, ?_⟩
  · intro range
    exact ⟨Binary64.ofDecimal_not_negative spelled, Binary64.ofDecimal_not_isNaN spelled,
      Decimal.isNearest_of_range range⟩
  · intro same
    rw [literal, otherLiteral, Binary64.ofDecimal_eq_of_value_eq same]
  · intro ordered
    rw [Binary64.value_ofDecimal, Binary64.value_ofDecimal]
    exact Magnitude.value_le_value (Decimal.magnitude_mono ordered)

/-- A number in the middle between two doubles, and one that is above the middle by its last
digit. -/
theorem scan_numbers_rounded_tie :
    ∃ token ∈ (scan (ascii "9007199254740993")).tokens,
      ∃ other ∈ (scan (ascii "x = 9007199254740993.000000000000000000001;")).tokens,
        token.kind = .number ∧ other.kind = .number ∧
        token.literal = some (.number (.ofBits 0x4340000000000000)) ∧
        other.literal = some (.number (.ofBits 0x4340000000000001)) ∧
        (Binary64.ofBits 0x4340000000000000).IsNearest (2 ^ 53 + 1) ∧
        (Binary64.ofBits 0x4340000000000000).value ≤
          (Binary64.ofBits 0x4340000000000001).value := by
  have member : Token.ofLexeme (.number (ascii "9007199254740993") []) 1 ∈
      (scan (ascii "9007199254740993")).tokens := by
    decide +kernel
  have otherMember : Token.ofLexeme
      (.number (ascii "9007199254740993") (ascii "000000000000000000001")) 1 ∈
        (scan (ascii "x = 9007199254740993.000000000000000000001;")).tokens := by
    decide +kernel
  obtain ⟨spelled, otherSpelled, number, otherNumber, ⟨isSpelled, literal⟩,
    ⟨otherIsSpelled, otherLiteral⟩, rounded, _, ordered⟩ :=
      scan_numbers_rounded member rfl otherMember rfl
  have spells : spelled = ⟨9007199254740993, 0⟩ :=
    Option.some.inj (isSpelled.symm.trans (by decide +kernel))
  have otherSpells : otherSpelled = ⟨9007199254740993000000000000000000001, -21⟩ :=
    Option.some.inj (otherIsSpelled.symm.trans (by decide +kernel))
  have value : (Token.ofLexeme (.number (ascii "9007199254740993") []) 1).literal =
      some (.number (.ofBits 0x4340000000000000)) := by
    decide +kernel
  have otherValue : (Token.ofLexeme
      (.number (ascii "9007199254740993") (ascii "000000000000000000001")) 1).literal =
        some (.number (.ofBits 0x4340000000000001)) := by
    decide +kernel
  have same : number = .ofBits 0x4340000000000000 :=
    Literal.number.inj (Option.some.inj (literal.symm.trans value))
  have otherSame : otherNumber = .ofBits 0x4340000000000001 :=
    Literal.number.inj (Option.some.inj (otherLiteral.symm.trans otherValue))
  have size : spelled.value = 2 ^ 53 + 1 := by
    rw [spells, Decimal.value]
    norm_num
  have otherSize : (2 : ℚ) ^ 53 + 1 ≤ otherSpelled.value := by
    rw [otherSpells, Decimal.value]
    norm_num
  have lower : (2 : ℚ) ^ (-1022 : ℤ) ≤ 2 ^ 53 + 1 :=
    (zpow_le_one_of_nonpos₀ (by norm_num) (by norm_num)).trans (by norm_num)
  have upper : (2 : ℚ) ^ 53 + 1 ≤ (2 ^ 53 - 1) * 2 ^ (971 : ℤ) := by
    calc (2 : ℚ) ^ 53 + 1 ≤ (2 ^ 53 - 1) * 2 ^ (1 : ℤ) := by norm_num
      _ ≤ (2 ^ 53 - 1) * 2 ^ (971 : ℤ) :=
        mul_le_mul_of_nonneg_left (zpow_le_zpow_right₀ (by norm_num) (by norm_num)) (by norm_num)
  rw [same, size] at rounded
  rw [same, otherSame, size] at ordered
  exact ⟨_, member, _, otherMember, rfl, rfl, value, otherValue,
    (rounded (.inr ⟨lower, upper⟩)).2.2, ordered otherSize⟩

end ScriptLexer
