import Mathlib
import ScriptLexer.Proofs.Text.Front
import ScriptLexer.Token.Kind

namespace ScriptLexer

open Byte

/-! How symbols are told apart.  A symbol ends where no longer symbol and no
comment begins with it, and `Symbol.admits_iff` says by the next byte when that is.
-/

namespace Symbol

/-- The longest symbol is taken, and a slash is none where it begins a comment. -/
def Admits : Symbol → Bytes → Prop
  | .bang, rest | .equal, rest | .greater, rest | .less, rest =>
      startsWith (· == equals) rest = false
  | .slash, rest => startsWith isCommentMark rest = false
  | _, _ => True

theorem eq_of_text_eq {mark other : Symbol} (same : mark.text = other.text) : mark = other := by
  have found := ofText?_text mark
  rw [same, ofText?_text] at found
  exact (Option.some.inj found).symm

theorem length_text (mark : Symbol) : mark.text.length = 1 ∨ mark.text.length = 2 := by
  cases mark <;> decide

theorem lengthened_cases {mark longer : Symbol} {second : UInt8}
    (lengthened : longer.text = mark.text ++ [second]) :
    second = equals ∧ (mark = .bang ∨ mark = .equal ∨ mark = .greater ∨ mark = .less) := by
  have pair (start : Symbol) (same : longer.text = start.text ++ [equals]) :
      second = equals ∧ mark = start := by
    obtain ⟨starts, ends⟩ := List.append_inj' (lengthened.symm.trans same) rfl
    exact ⟨List.singleton_inj.mp ends, eq_of_text_eq starts⟩
  have two : 2 ≤ longer.text.length := by
    have lengths := congrArg List.length lengthened
    rw [List.length_append, List.length_singleton] at lengths
    have positive := mark.length_text
    omega
  cases longer with
  | bangEqual => exact (pair .bang rfl).imp_right .inl
  | equalEqual => exact (pair .equal rfl).imp_right (.inr ∘ .inl)
  | greaterEqual => exact (pair .greater rfl).imp_right (.inr ∘ .inr ∘ .inl)
  | lessEqual => exact (pair .less rfl).imp_right (.inr ∘ .inr ∘ .inr)
  | _ => exact absurd two (by decide)

theorem admits_iff {mark : Symbol} {rest : Bytes} :
    mark.Admits rest ↔
      (∀ second, rest.head? = some second → ofText? (mark.text ++ [second]) = none) ∧
        (mark = .slash → startsWith isCommentMark rest = false) := by
  constructor
  · intro admits
    refine ⟨?_, ?_⟩
    · intro second head
      cases found : ofText? (mark.text ++ [second]) with
      | none => rfl
      | some longer =>
          obtain ⟨isEquals, comparison⟩ := lengthened_cases (ofText?_eq_some_iff.mp found)
          have stops : startsWith (· == equals) rest = false := by
            rcases comparison with rfl | rfl | rfl | rfl <;> exact admits
          simp [startsWith, head, isEquals] at stops
    · intro isSlash
      subst isSlash
      exact admits
  · intro both
    obtain ⟨longest, noComment⟩ := both
    have stops (longer : Symbol) (lengthened : longer.text = mark.text ++ [equals]) :
        startsWith (· == equals) rest = false := by
      cases rest with
      | nil => rfl
      | cons second after =>
          rw [startsWith_cons, beq_eq_false_iff_ne]
          intro isEquals
          subst isEquals
          have absent := longest equals rfl
          rw [← lengthened, ofText?_text] at absent
          cases absent
    cases mark with
    | bang => exact stops .bangEqual rfl
    | equal => exact stops .equalEqual rfl
    | greater => exact stops .greaterEqual rfl
    | less => exact stops .lessEqual rfl
    | slash => exact noComment rfl
    | _ => trivial

theorem admits_nil (mark : Symbol) : mark.Admits [] :=
  admits_iff.mpr ⟨by simp, fun _ => rfl⟩

theorem exists_single_of_pair {pair : Symbol} {first second : UInt8}
    (spelled : pair.text = [first, second]) : ∃ mark : Symbol, mark.text = [first] := by
  have two : pair.text.length = 2 := by rw [spelled]; rfl
  cases pair with
  | bangEqual => exact ⟨.bang, by rw [← (List.cons.inj spelled).1]; rfl⟩
  | equalEqual => exact ⟨.equal, by rw [← (List.cons.inj spelled).1]; rfl⟩
  | greaterEqual => exact ⟨.greater, by rw [← (List.cons.inj spelled).1]; rfl⟩
  | lessEqual => exact ⟨.less, by rw [← (List.cons.inj spelled).1]; rfl⟩
  | _ => exact absurd two (by decide)

end Symbol

end ScriptLexer
