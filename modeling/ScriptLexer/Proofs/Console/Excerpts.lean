import Mathlib
import ScriptLexer.Proofs.Console.Report
import ScriptLexer.Proofs.Scan.Lines
import ScriptLexer.Proofs.Text.Pieces

namespace ScriptLexer

open Byte

/-! The line of the script under a fault.  The scan counts lines as it goes, and they are
the lines that the script is divided into when one of them is shown.
-/

variable {content : Bytes} {placed : Placed} {diagnostic : Diagnostic}

/-- A stray byte lies in the piece that its line shows, and is not trimmed from it. -/
theorem exists_piece_of_stray {byte : UInt8} (member : placed ∈ placedSegments content)
    (isStray : placed.segment = .stray byte) :
    content[placed.offset]? = some byte ∧
      ∃ before piece after, pieces content = before ++ piece :: after ∧
        placed.endLine = before.length + 1 ∧ piece <+: content.drop (ended before).length ∧
        (ended before).length ≤ placed.offset ∧
        (trimReturns piece)[placed.offset - (ended before).length]? = some byte := by
  have line := endLine_of_stray member isStray
  obtain ⟨earlier, later, places⟩ := List.append_of_mem member
  obtain ⟨_, rest, _, stands⟩ := placedSegments_split places
  rw [isStray] at rest stands
  have notNewline : byte ≠ newline := Segment.ne_newline_of_stray stands.wellFormed
  have notReturn : byte ≠ carriageReturn := by
    intro same
    subst same
    cases stands.wellFormed.1
  have inside : placed.offset < content.length := by
    have size := congrArg List.length rest
    simp only [List.length_drop, Segment.text, List.length_append, List.length_singleton] at size
    omega
  have found : content[placed.offset]? = some byte := by
    have first := congrArg List.head? rest
    rwa [List.head?_drop] at first
  obtain ⟨before, last, tail, after, split, count, front, tailOfRest⟩ :=
    exists_piece_of_byte (content.take placed.offset) (placedText later) notNewline
  have whole : content = ended before ++ (last ++ byte :: placedText later) := by
    rw [← List.append_assoc, ← front]
    exact (List.take_append_drop placed.offset content).symm.trans (congrArg _ rest)
  have offset : placed.offset = (ended before).length + last.length := by
    rw [← List.length_append, ← front, List.length_take, Nat.min_eq_left (Nat.le_of_lt inside)]
  refine ⟨found, before, last ++ byte :: tail, after, ?_, ?_, ?_, ?_, ?_⟩
  · rw [← split, front, List.append_assoc, ← whole]
  · rw [line, countedLine, lineAfter, count, Nat.add_comm]
  · rw [whole, List.drop_left, List.prefix_append_right_inj, List.cons_prefix_cons]
    exact ⟨rfl, tailOfRest⟩
  · rw [offset]
    exact Nat.le_add_right _ _
  · rw [offset, Nat.add_sub_cancel_left, trimReturns_append_cons _ _ notReturn]
    simp

/-- What is never closed is reported on the last piece. -/
theorem exists_piece_of_open {fault : Fault} (member : placed ∈ placedSegments content)
    (faulty : placed.segment.fault? = some fault) (isOpen : fault ≠ .unexpectedCharacter) :
    ∃ before piece, pieces content = before ++ [piece] ∧ placed.endLine = before.length + 1 ∧
      piece <+: content.drop (ended before).length := by
  obtain ⟨before, piece, split, whole⟩ := exists_last_piece content
  have count := length_pieces content
  rw [split, List.length_append, List.length_singleton] at count
  refine ⟨before, piece, split, ?_, ?_⟩
  · rw [endLine_of_open member faulty isOpen, count]
  · rw [whole, List.drop_left]

theorem diagnostic_line_bounds (member : diagnostic ∈ (scan content).diagnostics) :
    1 ≤ diagnostic.line ∧ diagnostic.line ≤ (pieces content).length := by
  rw [length_pieces]
  exact ⟨one_le_diagnostic_line member, diagnostic_line_le member⟩

namespace Console

open Transcript

/-- A piece of the script with the number of its line, as it is shown under a fault. -/
def excerptPiece (line : Nat) (piece : Bytes) : Piece :=
  ⟨.error, ascii "  " ++ Numeral.ofNat line ++ ascii " | " ++ trimReturns piece ++ ascii "\n"⟩

theorem excerpt_eq_singleton {sourcePieces : List Bytes} {line : Nat} (counted : 1 ≤ line)
    (inside : line ≤ sourcePieces.length) :
    excerpt sourcePieces line = [excerptPiece line (sourcePieces.getD (line - 1) [])] := by
  have found : sourcePieces[line - 1]? = some (sourcePieces.getD (line - 1) []) := by
    rw [List.getD_eq_getElem?_getD, List.getElem?_eq_getElem (by omega), Option.getD_some]
  rw [excerpt, if_neg (by omega), found]
  rfl

theorem diagnosticLines_of_shown (quiet : Bool)
    (member : diagnostic ∈ (scan content).diagnostics) :
    diagnosticLines ⟨quiet, true⟩ (pieces content) diagnostic =
      messageLines diagnostic ++
        [excerptPiece diagnostic.line ((pieces content).getD (diagnostic.line - 1) [])] := by
  obtain ⟨counted, inside⟩ := diagnostic_line_bounds member
  rw [diagnosticLines_eq, if_pos rfl, excerpt_eq_singleton counted inside]

/-- With the source shown, every message is followed by one line of the script.  It is the
line of a stray byte, which still shows the byte in its column, or else the last line. -/
theorem runFile_excerpts (quiet : Bool) (content : Bytes) :
    (runFile ⟨quiet, true⟩ content).transcript =
        tokenLines ⟨quiet, true⟩ (scan content).tokens ++
          ((scan content).diagnostics.flatMap fun diagnostic =>
            messageLines diagnostic ++
              [excerptPiece diagnostic.line ((pieces content).getD (diagnostic.line - 1) [])]) ++
          (if (scan content).diagnostics = [] then []
            else errorCount (scan content).diagnostics.length) ∧
      (∀ diagnostic ∈ (scan content).diagnostics,
        1 ≤ diagnostic.line ∧ diagnostic.line ≤ (pieces content).length) ∧
      (scan content).diagnostics = (placedSegments content).filterMap Placed.diagnostic? ∧
      ∀ placed ∈ placedSegments content, ∀ diagnostic, placed.diagnostic? = some diagnostic →
        ∃ before piece after, pieces content = before ++ piece :: after ∧
          diagnostic.line = before.length + 1 ∧ piece <+: content.drop (ended before).length ∧
          (diagnostic.message = Fault.unexpectedCharacter.message →
            ∃ byte, placed.segment = .stray byte ∧ content[placed.offset]? = some byte ∧
              (ended before).length ≤ placed.offset ∧
              (trimReturns piece)[placed.offset - (ended before).length]? = some byte) ∧
          (diagnostic.message ≠ Fault.unexpectedCharacter.message → after = []) := by
  refine ⟨?_, fun _ => diagnostic_line_bounds, diagnostics_eq_filterMap content, ?_⟩
  · rw [runFile_transcript, faultLines, List.append_assoc,
      List.flatMap_congr fun _ => diagnosticLines_of_shown quiet]
  · intro placed member diagnostic shown
    obtain ⟨fault, faulty, rfl⟩ := Option.map_eq_some_iff.mp shown
    by_cases unexpected : fault = .unexpectedCharacter
    · subst unexpected
      obtain ⟨byte, isStray⟩ := Segment.exists_stray_of_fault? faulty
      obtain ⟨found, before, piece, after, split, line, starts, front, column⟩ :=
        exists_piece_of_stray member isStray
      exact ⟨before, piece, after, split, line, starts,
        fun _ => ⟨byte, isStray, found, front, column⟩, absurd rfl⟩
    · obtain ⟨before, piece, split, line, starts⟩ :=
        exists_piece_of_open member faulty unexpected
      exact ⟨before, piece, [], split, line, starts,
        (absurd · (Fault.message_ne_unexpected unexpected)), fun _ => rfl⟩

example : textOn .error (runFile {} (ascii "a\r\n@\r\r\n\"")).transcript =
    ascii "[line 2] : Unexpected character.\n  2 | @\n" ++
      ascii "[line 3] : Unterminated string.\n  3 | \"\n" ++ ascii "2 errors generated.\n" := by
  decide +kernel

end Console

end ScriptLexer
