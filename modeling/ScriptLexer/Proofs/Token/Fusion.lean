import Mathlib
import ScriptLexer.Proofs.Segmentation
import ScriptLexer.Token

namespace ScriptLexer

open Byte

/-! What is read together when nothing stands between.  The first byte of a lexeme
depends on its kind alone, so that two kinds say whether a lexeme still ends where
it does when another one is written directly behind it.
-/

namespace Kind

def isWord : Kind → Bool
  | .identifier | .keyword _ => true
  | _ => false

/-- Whether a token of the second kind, directly behind one of the first, is read
together with it. -/
def fuses (first second : Kind) : Bool :=
  match first with
  | .identifier | .keyword _ => second.isWord || second == .number
  | .number => second == .number
  | .symbol .bang | .symbol .equal | .symbol .less | .symbol .greater =>
      second == .symbol .equal || second == .symbol .equalEqual
  | .symbol .slash => second == .symbol .slash || second == .symbol .star
  | _ => false

theorem fuses_of_isWord {first : Kind} (word : first.isWord = true) (second : Kind) :
    first.fuses second = (second.isWord || second == .number) := by
  cases first with
  | identifier | keyword => rfl
  | _ => cases word

end Kind

namespace Lexeme

theorem isWord_kind_word (text : Bytes) : (Lexeme.word text).kind.isWord = true := by
  rw [kind]
  cases Keyword.ofText? text <;> rfl

theorem exists_body_of_kind {part : Lexeme} (isString : part.kind = .string) :
    ∃ body, part = .string body := by
  cases part with
  | string body => exact ⟨body, rfl⟩
  | word text =>
      have word := isWord_kind_word text
      rw [isString] at word
      cases word
  | _ => cases isString

/-- What the first bytes of each kind have in common is seen on every lexeme. -/
theorem startsWith_text (inClass : UInt8 → Bool) (ofKind : Kind → Bool)
    (symbols : ∀ mark : Symbol, startsWith inClass mark.text = ofKind (.symbol mark))
    (words : ∀ byte kind, isWordStart byte = true → kind.isWord = true →
      inClass byte = ofKind kind)
    (numbers : ∀ byte, isDigit byte = true → inClass byte = ofKind .number)
    (strings : inClass quote = ofKind .string) {part : Lexeme} (wellFormed : part.WellFormed)
    (rest : Bytes) : startsWith inClass (part.text ++ rest) = ofKind part.kind := by
  cases part with
  | symbol mark =>
      obtain ⟨first, tail, starts⟩ := List.exists_cons_of_ne_nil mark.text_ne_nil
      have spelled := symbols mark
      rw [starts, startsWith_cons] at spelled
      rw [text, starts, List.cons_append, startsWith_cons]
      exact spelled
  | word text =>
      obtain ⟨first, tail, rfl, letter, _⟩ := wellFormed
      exact words first _ letter (isWord_kind_word _)
  | number whole fraction =>
      obtain ⟨someDigits, digits, _⟩ := wellFormed
      obtain ⟨first, tail, rfl⟩ := List.exists_cons_of_ne_nil someDigits
      exact numbers first (digits first List.mem_cons_self)
  | string body => exact strings

/-- A class without word bytes and quotes is seen on symbols alone. -/
theorem startsWith_text_of_symbols (inClass : UInt8 → Bool) (ofKind : Kind → Bool)
    (symbols : ∀ mark : Symbol, startsWith inClass mark.text = ofKind (.symbol mark))
    (outside : ∀ byte, inClass byte = true → isWordByte byte = false ∧ byte ≠ quote)
    (onlySymbols : ∀ kind, (∀ mark, kind ≠ .symbol mark) → ofKind kind = false)
    {part : Lexeme} (wellFormed : part.WellFormed) (rest : Bytes) :
    startsWith inClass (part.text ++ rest) = ofKind part.kind := by
  have noWordByte (byte : UInt8) (wordByte : isWordByte byte = true) : inClass byte = false := by
    rw [← Bool.not_eq_true]
    intro inside
    simp [(outside byte inside).1] at wordByte
  have noQuote : inClass quote = false := by
    rw [← Bool.not_eq_true]
    intro inside
    exact (outside quote inside).2 rfl
  refine startsWith_text inClass ofKind symbols ?_ ?_ ?_ wellFormed rest
  · intro byte kind letter word
    have noSymbol : ∀ mark, kind ≠ .symbol mark := by
      intro mark same
      simp [same, Kind.isWord] at word
    rw [noWordByte byte (by simp [isWordByte, letter]), onlySymbols kind noSymbol]
  · intro byte digit
    rw [noWordByte byte (isWordByte_of_isDigit digit), onlySymbols .number (by simp)]
  · rw [noQuote, onlySymbols .string (by simp)]

variable {part : Lexeme}

theorem startsWith_isBlank (wellFormed : part.WellFormed) (rest : Bytes) :
    startsWith isBlank (part.text ++ rest) = false := by
  refine startsWith_text_of_symbols isBlank (fun _ => false) ?_ ?_ (by simp) wellFormed rest
  · intro mark
    cases mark <;> rfl
  · intro byte blank
    rcases isBlank_cases blank with rfl | rfl | rfl | rfl <;> decide

theorem startsWith_isWordByte (wellFormed : part.WellFormed) (rest : Bytes) :
    startsWith isWordByte (part.text ++ rest) = (part.kind.isWord || part.kind == .number) := by
  refine startsWith_text isWordByte (fun kind => kind.isWord || kind == .number) ?_ ?_ ?_ rfl
    wellFormed rest
  · intro mark
    cases mark <;> rfl
  · intro byte kind letter word
    simp [isWordByte, letter, word]
  · intro byte digit
    simp [isWordByte_of_isDigit digit]

theorem startsWith_isDigit (wellFormed : part.WellFormed) (rest : Bytes) :
    startsWith isDigit (part.text ++ rest) = (part.kind == .number) := by
  refine startsWith_text isDigit (· == .number) ?_ ?_ ?_ rfl wellFormed rest
  · intro mark
    cases mark <;> rfl
  · intro byte kind letter word
    have notNumber : kind ≠ .number := by
      intro same
      simp [same, Kind.isWord] at word
    simp [not_isDigit_of_isWordStart letter, notNumber]
  · intro byte digit
    simp [digit]

theorem startsWith_equals (wellFormed : part.WellFormed) (rest : Bytes) :
    startsWith (· == equals) (part.text ++ rest) =
      (part.kind == .symbol .equal || part.kind == .symbol .equalEqual) := by
  refine startsWith_text_of_symbols (· == equals)
    (fun kind => kind == .symbol .equal || kind == .symbol .equalEqual) ?_ ?_ ?_ wellFormed rest
  · intro mark
    cases mark <;> rfl
  · intro byte isEquals
    rw [eq_of_beq isEquals]
    decide
  · intro kind noSymbol
    simp [noSymbol]

theorem startsWith_isCommentMark (wellFormed : part.WellFormed) (rest : Bytes) :
    startsWith isCommentMark (part.text ++ rest) =
      (part.kind == .symbol .slash || part.kind == .symbol .star) := by
  refine startsWith_text_of_symbols isCommentMark
    (fun kind => kind == .symbol .slash || kind == .symbol .star) ?_ ?_ ?_ wellFormed rest
  · intro mark
    cases mark <;> rfl
  · intro byte mark
    have either : byte = slash ∨ byte = star := by simpa [isCommentMark] using mark
    rcases either with rfl | rfl <;> decide
  · intro kind noSymbol
    simp [noSymbol]

theorem startsWith_point (wellFormed : part.WellFormed) (rest : Bytes) :
    startsWith (· == point) (part.text ++ rest) = (part.kind == .symbol .dot) := by
  refine startsWith_text_of_symbols (· == point) (· == .symbol .dot) ?_ ?_ ?_ wellFormed rest
  · intro mark
    cases mark <;> rfl
  · intro byte isPoint
    rw [eq_of_beq isPoint]
    decide
  · intro kind noSymbol
    simp [noSymbol]

/-! When a lexeme ends before a break, and when before another lexeme. -/

theorem admits_of_breaks (part : Lexeme) {rest : Bytes} (breaks : Breaks rest) :
    part.Admits rest := by
  cases part with
  | symbol mark =>
      cases mark with
      | bang | equal | greater | less | slash => exact breaks.startsWith_eq_false rfl rfl rfl rfl
      | _ => trivial
  | word text => exact breaks.startsWith_eq_false rfl rfl rfl rfl
  | number whole fraction =>
      have noPoint : startsWith (· == point) rest = false :=
        breaks.startsWith_eq_false rfl rfl rfl rfl
      refine ⟨breaks.startsWith_eq_false rfl rfl rfl rfl, ?_⟩
      intro _ isPoint
      rw [noPoint] at isPoint
      cases isPoint
  | string body => trivial

/-- A number without a point, which digits behind a point can still make longer. -/
def isInteger : Lexeme → Bool
  | .number _ fraction => fraction.isEmpty
  | _ => false

variable {next : Lexeme} {rest : Bytes}

theorem text_of_kind_dot (isDot : next.kind = .symbol .dot) : next.text = [point] := by
  cases next with
  | symbol mark =>
      rw [Kind.symbol.inj isDot]
      rfl
  | word text =>
      have word := isWord_kind_word text
      rw [isDot] at word
      cases word
  | _ => cases isDot

theorem admits_text_of_symbol (mark : Symbol) (wellFormed : next.WellFormed) :
    mark.Admits (next.text ++ rest) ↔ (Kind.symbol mark).fuses next.kind = false := by
  cases mark with
  | bang | equal | greater | less =>
      rw [Symbol.Admits, startsWith_equals wellFormed]
      rfl
  | slash =>
      rw [Symbol.Admits, startsWith_isCommentMark wellFormed]
      rfl
  | _ => exact iff_of_true trivial rfl

theorem admits_text_iff (part : Lexeme) (wellFormed : next.WellFormed) :
    part.Admits (next.text ++ rest) ↔
      part.kind.fuses next.kind = false ∧
        (part.isInteger = true → next.kind = .symbol .dot → startsWith isDigit rest = false) := by
  cases part with
  | symbol mark =>
      rw [and_iff_left (nofun)]
      exact admits_text_of_symbol mark wellFormed
  | word text =>
      rw [and_iff_left (nofun), Kind.fuses_of_isWord (isWord_kind_word text),
        ← startsWith_isWordByte wellFormed rest]
      exact Iff.rfl
  | number whole fraction =>
      refine and_congr ?_ ?_
      · rw [startsWith_isDigit wellFormed]
        exact Iff.rfl
      · rw [startsWith_point wellFormed, beq_iff_eq, isInteger, List.isEmpty_iff]
        refine imp_congr_right fun _ => imp_congr_right fun isDot => ?_
        have text := text_of_kind_dot isDot
        rw [text]
        rfl
  | string body => exact iff_of_true trivial ⟨rfl, nofun⟩

end Lexeme

end ScriptLexer
