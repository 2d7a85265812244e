import Mathlib
import ScriptLexer.Text.Line

namespace ScriptLexer

open Byte

/-! The lines of a text one by one, and the piece between newlines in which a place of
the text lies.
-/

theorem pieces_ne_nil (text : Bytes) : pieces text ≠ [] := by
  apply List.ne_nil_of_length_pos
  rw [length_pieces, lineAfter]
  omega

theorem lines_nil : lines [] = [] := by
  rw [lines, pieces_nil]
  rfl

theorem lines_of_unbroken {line : Bytes} (someBytes : line ≠ []) (unbroken : newline ∉ line) :
    lines line = [line] := by
  rw [lines, pieces_eq_singleton unbroken, if_neg]
  simpa using someBytes

theorem lines_append_newline {line : Bytes} (unbroken : newline ∉ line) (rest : Bytes) :
    lines (line ++ newline :: rest) = line :: lines rest := by
  have split : pieces (line ++ newline :: rest) = line :: pieces rest := by
    rw [pieces_append_newline, pieces_eq_singleton unbroken, List.singleton_append]
  obtain ⟨first, later, starts⟩ := List.exists_cons_of_ne_nil (pieces_ne_nil rest)
  rw [lines, lines, split, starts, List.getLast?_cons_cons, List.dropLast_cons_cons]
  split <;> rfl

/-- What holds of no text, of a line that no newline ends, and of a text as soon as it
holds of what stands behind its first line, holds of every text. -/
theorem lines_induction {motive : Bytes → Prop} (nil : motive [])
    (last : ∀ line, line ≠ [] → newline ∉ line → motive line)
    (cons : ∀ line rest, newline ∉ line → motive rest → motive (line ++ newline :: rest))
    (text : Bytes) : motive text := by
  induction size : text.length using Nat.strongRecOn generalizing text with
  | ind length ih =>
      by_cases broken : newline ∈ text
      · obtain ⟨line, rest, split, unbroken⟩ := List.eq_append_cons_of_mem broken
        have shorter : rest.length < length := by
          rw [← size, split, List.length_append, List.length_cons]
          omega
        rw [split]
        exact cons line rest unbroken (ih rest.length shorter rest rfl)
      · by_cases empty : text = []
        · rw [empty]
          exact nil
        · exact last text empty broken

theorem newline_notMem_of_mem_lines {text line : Bytes} (member : line ∈ lines text) :
    newline ∉ line := by
  induction text using lines_induction with
  | nil =>
      rw [lines_nil] at member
      cases member
  | last other someBytes unbroken =>
      rw [lines_of_unbroken someBytes unbroken] at member
      rw [List.mem_singleton.mp member]
      exact unbroken
  | cons first rest unbroken ih =>
      rw [lines_append_newline unbroken] at member
      rcases List.mem_cons.mp member with rfl | later
      · exact unbroken
      · exact ih later

/-- Pieces with the newline behind each of them. -/
def ended (before : List Bytes) : Bytes :=
  before.flatMap fun piece => piece ++ [newline]

/-- The pieces that end in front of a place, and the beginning of the one that goes on
there. -/
theorem exists_piece (front : Bytes) :
    ∃ before last, front = ended before ++ last ∧ newline ∉ last ∧
      ∀ back, pieces (front ++ back) = before ++ pieces (last ++ back) := by
  induction front using lines_induction with
  | nil => exact ⟨[], [], rfl, List.not_mem_nil, fun back => rfl⟩
  | last line someBytes unbroken => exact ⟨[], line, rfl, unbroken, fun back => rfl⟩
  | cons line rest unbroken ih =>
      obtain ⟨before, last, whole, unbrokenLast, split⟩ := ih
      refine ⟨line :: before, last, ?_, unbrokenLast, ?_⟩
      · rw [ended, List.flatMap_cons, ← ended, whole]
        simp
      · intro back
        rw [List.append_assoc, List.cons_append, pieces_append_newline,
          pieces_eq_singleton unbroken, split]
        rfl

theorem pieces_append_of_unbroken {front : Bytes} (unbroken : newline ∉ front) (back : Bytes) :
    ∃ tail after, pieces (front ++ back) = (front ++ tail) :: after ∧ tail <+: back := by
  by_cases broken : newline ∈ back
  · obtain ⟨tail, rest, split, unbrokenTail⟩ := List.eq_append_cons_of_mem broken
    have together : newline ∉ front ++ tail := by
      rw [List.mem_append, not_or]
      exact ⟨unbroken, unbrokenTail⟩
    refine ⟨tail, pieces rest, ?_, ?_⟩
    · rw [split, ← List.append_assoc, pieces_append_newline, pieces_eq_singleton together]
      rfl
    · rw [split]
      exact List.prefix_append _ _
  · refine ⟨back, [], pieces_eq_singleton ?_, List.prefix_rfl⟩
    rw [List.mem_append, not_or]
    exact ⟨unbroken, broken⟩

/-- A byte that ends no piece lies in the piece with as many newlines in front of it as
there are in front of the byte, behind what that piece begins with. -/
theorem exists_piece_of_byte (front back : Bytes) {byte : UInt8} (inside : byte ≠ newline) :
    ∃ before last tail after,
      pieces (front ++ byte :: back) = before ++ (last ++ byte :: tail) :: after ∧
        before.length = newlines front ∧ front = ended before ++ last ∧ tail <+: back := by
  obtain ⟨before, last, whole, unbroken, split⟩ := exists_piece front
  have unbrokenByte : newline ∉ last ++ [byte] := by
    rw [List.mem_append, List.mem_singleton, not_or]
    exact ⟨unbroken, inside.symm⟩
  obtain ⟨tail, after, starts, tailOfBack⟩ := pieces_append_of_unbroken unbrokenByte back
  refine ⟨before, last, tail, after, ?_, ?_, whole, tailOfBack⟩
  · rw [split, List.append_cons last, starts, ← List.append_cons]
  · have count := length_pieces front
    have alone := split []
    rw [List.append_nil, List.append_nil, pieces_eq_singleton unbroken] at alone
    rw [alone, List.length_append, List.length_singleton, lineAfter] at count
    omega

theorem exists_last_piece (text : Bytes) :
    ∃ before last, pieces text = before ++ [last] ∧ text = ended before ++ last := by
  obtain ⟨before, last, whole, unbroken, split⟩ := exists_piece text
  have alone := split []
  rw [List.append_nil, List.append_nil, pieces_eq_singleton unbroken] at alone
  exact ⟨before, last, alone, whole⟩

theorem trimReturns_append_cons (front back : Bytes) {byte : UInt8}
    (kept : byte ≠ carriageReturn) :
    trimReturns (front ++ byte :: back) = front ++ byte :: trimReturns back := by
  have stops : (byte == carriageReturn) = false := beq_eq_false_iff_ne.mpr kept
  rw [trimReturns, List.reverse_append, List.reverse_cons, List.append_assoc,
    List.dropWhile_append]
  split
  · rename_i empty
    rw [trimReturns, List.isEmpty_iff.mp empty]
    simp [stops]
  · simp [trimReturns]

end ScriptLexer
