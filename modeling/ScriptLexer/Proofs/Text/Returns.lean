import Mathlib
import ScriptLexer.Proofs.Segment.Next
import ScriptLexer.Proofs.Text.Pieces

namespace ScriptLexer

open Byte

/-! The other way to end a line.  A text gets a carriage return in front of each newline,
whether or not there was one before.
-/

/-- A text in which carriage return and newline stand for each newline. -/
def withReturns (text : Bytes) : Bytes :=
  text.flatMap fun byte => if byte = newline then [carriageReturn, newline] else [byte]

variable {text front back : Bytes} {byte : UInt8}

theorem withReturns_append (front back : Bytes) :
    withReturns (front ++ back) = withReturns front ++ withReturns back :=
  List.flatMap_append

theorem withReturns_newline (rest : Bytes) :
    withReturns (newline :: rest) = carriageReturn :: newline :: withReturns rest := rfl

theorem withReturns_cons_of_ne (inside : byte ≠ newline) (rest : Bytes) :
    withReturns (byte :: rest) = byte :: withReturns rest := by
  rw [withReturns, List.flatMap_cons, if_neg inside]
  rfl

theorem withReturns_of_unbroken (unbroken : newline ∉ text) : withReturns text = text := by
  induction text with
  | nil => rfl
  | cons byte rest ih =>
      rw [List.mem_cons, not_or] at unbroken
      rw [withReturns_cons_of_ne (Ne.symm unbroken.1), ih unbroken.2]

theorem mem_of_mem_withReturns (member : byte ∈ withReturns text)
    (notReturn : byte ≠ carriageReturn) : byte ∈ text := by
  obtain ⟨original, inside, shown⟩ := List.mem_flatMap.mp member
  split at shown
  · rename_i isNewline
    subst isNewline
    rcases List.mem_pair.mp shown with isReturn | isNewline
    · exact absurd isReturn notReturn
    · exact isNewline ▸ inside
  · exact List.mem_singleton.mp shown ▸ inside

/-- No newline is added and none is lost. -/
theorem newlines_withReturns (text : Bytes) : newlines (withReturns text) = newlines text := by
  induction text with
  | nil => rfl
  | cons byte rest ih =>
      by_cases isNewline : byte = newline
      · subst isNewline
        have front := newlines_append [carriageReturn, newline] (withReturns rest)
        have back := newlines_append [newline] rest
        rw [ih] at front
        exact front.trans back.symm
      · have front := newlines_append [byte] (withReturns rest)
        have back := newlines_append [byte] rest
        rw [ih] at front
        rw [withReturns_cons_of_ne isNewline]
        exact front.trans back.symm

/-- The first byte of a text stays in its class, unless that tells the two ways to end a
line apart. -/
theorem startsWith_withReturns {inClass : UInt8 → Bool}
    (together : inClass carriageReturn = inClass newline) (text : Bytes) :
    startsWith inClass (withReturns text) = startsWith inClass text := by
  cases text with
  | nil => rfl
  | cons byte rest =>
      by_cases isNewline : byte = newline
      · subst isNewline
        rw [withReturns_newline, startsWith_cons, startsWith_cons, together]
      · rw [withReturns_cons_of_ne isNewline, startsWith_cons, startsWith_cons]

theorem head?_withReturns_eq_some_iff (inside : byte ≠ newline)
    (notReturn : byte ≠ carriageReturn) :
    (withReturns text).head? = some byte ↔ text.head? = some byte := by
  cases text with
  | nil => exact Iff.rfl
  | cons first rest =>
      by_cases isNewline : first = newline
      · subst isNewline
        simp [withReturns_newline, Ne.symm inside, Ne.symm notReturn]
      · rw [withReturns_cons_of_ne isNewline]
        exact Iff.rfl

/-- A return comes between no star and slash. -/
theorem mark_infix_withReturns_iff :
    [star, slash] <:+: withReturns text ↔ [star, slash] <:+: text := by
  induction text with
  | nil => exact Iff.rfl
  | cons byte rest ih =>
      by_cases isNewline : byte = newline
      · subst isNewline
        rw [withReturns_newline, Segment.mark_infix_cons_iff, Segment.mark_infix_cons_iff,
          Segment.mark_infix_cons_iff, ih]
        have noStar : carriageReturn ≠ star ∧ newline ≠ star := by decide
        simp [noStar]
      · rw [withReturns_cons_of_ne isNewline, Segment.mark_infix_cons_iff,
          Segment.mark_infix_cons_iff, ih, head?_withReturns_eq_some_iff (by decide) (by decide)]

/-! Lines look the same once their returns have been trimmed. -/

theorem trimReturns_append_return (line : Bytes) :
    trimReturns (line ++ [carriageReturn]) = trimReturns line := by
  simp [trimReturns]

theorem map_trimReturns_pieces_withReturns (text : Bytes) :
    (pieces (withReturns text)).map trimReturns = (pieces text).map trimReturns := by
  induction text using lines_induction with
  | nil => rfl
  | last line someBytes unbroken => rw [withReturns_of_unbroken unbroken]
  | cons line rest unbroken ih =>
      have unbrokenReturn : newline ∉ line ++ [carriageReturn] := by
        rw [List.mem_append, not_or]
        exact ⟨unbroken, by decide⟩
      have together : withReturns (line ++ newline :: rest) =
          (line ++ [carriageReturn]) ++ newline :: withReturns rest := by
        rw [withReturns_append, withReturns_of_unbroken unbroken, withReturns_newline,
          List.append_assoc]
        rfl
      rw [together, pieces_append_newline, pieces_eq_singleton unbrokenReturn,
        pieces_append_newline, pieces_eq_singleton unbroken, List.map_append, ih,
        List.map_append, List.map_singleton, trimReturns_append_return, List.map_singleton]

end ScriptLexer
