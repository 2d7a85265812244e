import Mathlib
import ScriptLexer.Proofs.Token.Symbol
import ScriptLexer.Segment

namespace ScriptLexer

open Byte

/-! What a segment may look like and what may stand behind it, said without
cutting anything.
-/

namespace Lexeme

def WellFormed : Lexeme → Prop
  | .symbol _ => True
  | .word text =>
      ∃ first rest, text = first :: rest ∧ isWordStart first = true ∧
        ∀ byte ∈ rest, isWordByte byte = true
  | .number whole fraction =>
      whole ≠ [] ∧ (∀ byte ∈ whole, isDigit byte = true) ∧ ∀ byte ∈ fraction, isDigit byte = true
  | .string body => quote ∉ body

/-- What may stand behind a lexeme, so that it ends where it does. -/
def Admits : Lexeme → Bytes → Prop
  | .symbol mark, rest => mark.Admits rest
  | .word _, rest => startsWith isWordByte rest = false
  | .number _ fraction, rest =>
      startsWith isDigit rest = false ∧
        (fraction = [] → startsWith (· == point) rest = true →
          startsWith isDigit rest.tail = false)
  | .string _, _ => True

/-- Only strings have blanks inside. -/
theorem not_isBlank_of_mem_text {part : Lexeme} (wellFormed : part.WellFormed)
    (notString : part.kind ≠ .string) : ∀ byte ∈ part.text, isBlank byte = false := by
  cases part with
  | symbol mark => cases mark <;> decide +kernel
  | word text =>
      obtain ⟨first, rest, rfl, letter, inside⟩ := wellFormed
      rw [text, List.forall_mem_cons]
      exact ⟨not_isBlank_of_isWordStart letter,
        fun byte member => not_isBlank_of_isWordByte (inside byte member)⟩
  | number whole fraction =>
      obtain ⟨_, digits, behindPoint⟩ := wellFormed
      rw [text, List.forall_mem_append]
      refine ⟨fun byte member => not_isBlank_of_isDigit (digits byte member), ?_⟩
      cases fraction with
      | nil => exact List.forall_mem_nil _
      | cons digit fraction =>
          rw [Numeral.pointed, if_neg (List.cons_ne_nil _ _), List.forall_mem_cons]
          exact ⟨rfl, fun byte member => not_isBlank_of_isDigit (behindPoint byte member)⟩
  | string body => exact absurd rfl notString

theorem newline_notMem_text {part : Lexeme} (wellFormed : part.WellFormed)
    (notString : part.kind ≠ .string) : newline ∉ part.text := by
  intro member
  cases not_isBlank_of_mem_text wellFormed notString newline member

end Lexeme

namespace Segment

def WellFormed : Segment → Prop
  | .blank byte => isBlank byte = true
  | .lineComment body => newline ∉ body
  | .blockComment body => ¬ [star, slash] <:+: body
  | .lexeme part => part.WellFormed
  | .stray byte =>
      isBlank byte = false ∧ isDigit byte = false ∧ isWordStart byte = false ∧ byte ≠ quote ∧
        Symbol.ofText? [byte] = none
  | .openString body => quote ∉ body
  | .openComment body => ¬ [star, slash] <:+: body

def Admits : Segment → Bytes → Prop
  | .lineComment _, rest => rest = [] ∨ startsWith (· == newline) rest = true
  | .lexeme part, rest => part.Admits rest
  | .openString _, rest => rest = []
  | .openComment _, rest => rest = []
  | _, _ => True

structure Stands (segment : Segment) (rest : Bytes) : Prop where
  wellFormed : segment.WellFormed
  admits : segment.Admits rest

theorem ne_slash_of_stray {byte : UInt8} (wellFormed : (Segment.stray byte).WellFormed) :
    byte ≠ slash := by
  intro same
  subst same
  cases wellFormed.2.2.2.2

theorem ne_point_of_stray {byte : UInt8} (wellFormed : (Segment.stray byte).WellFormed) :
    byte ≠ point := by
  intro same
  subst same
  cases wellFormed.2.2.2.2

theorem ne_newline_of_stray {byte : UInt8} (wellFormed : (Segment.stray byte).WellFormed) :
    byte ≠ newline := by
  intro same
  subst same
  cases wellFormed.1

theorem text_ne_nil_of_wellFormed {segment : Segment} (wellFormed : segment.WellFormed) :
    segment.text ≠ [] := by
  cases segment with
  | lexeme part =>
      cases part with
      | symbol mark => exact mark.text_ne_nil
      | word text =>
          obtain ⟨first, rest, rfl, _⟩ := wellFormed
          exact List.cons_ne_nil _ _
      | number whole fraction =>
          intro empty
          exact wellFormed.1 (List.append_eq_nil_iff.mp empty).1
      | string body => exact List.cons_ne_nil _ _
  | _ => exact List.cons_ne_nil _ _

end Segment

end ScriptLexer
