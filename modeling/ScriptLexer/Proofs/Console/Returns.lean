import Mathlib
import ScriptLexer.Proofs.Console.Report
import ScriptLexer.Proofs.Scan.Returns

namespace ScriptLexer.Console

open Byte Transcript

/-! Files with either line end.  The faults of a script, the lines of it that are shown under
them and the status of the run do not depend on how its lines are ended.
-/

/-- Of a piece, no more is shown than is left when its returns have been trimmed. -/
theorem excerpt_eq_of_trimmed {sourcePieces others : List Bytes}
    (same : sourcePieces.map trimReturns = others.map trimReturns) (line : Nat) :
    excerpt sourcePieces line = excerpt others line := by
  have shown := congrArg (·[line - 1]?) same
  simp only [List.getElem?_map] at shown
  unfold excerpt
  split
  · rfl
  · cases here : sourcePieces[line - 1]? with
    | none =>
        rw [here, Option.map_none, eq_comm, Option.map_eq_none_iff] at shown
        rw [shown]
    | some piece =>
        rw [here, Option.map_some, eq_comm, Option.map_eq_some_iff] at shown
        obtain ⟨other, there, trimmed⟩ := shown
        rw [there]
        simp only [trimmed]

theorem faultLines_withReturns (options : Options) (content : Bytes) :
    faultLines options (withReturns content) = faultLines options content := by
  have each (diagnostic : Diagnostic) :
      diagnosticLines options (pieces (withReturns content)) diagnostic =
        diagnosticLines options (pieces content) diagnostic := by
    rw [diagnosticLines_eq, diagnosticLines_eq,
      excerpt_eq_of_trimmed (map_trimReturns_pieces_withReturns content)]
  rw [faultLines, diagnostics_withReturns, funext each, faultLines]

/-- A script with the other line ends has the same tokens on the same lines, with the other
line ends in its strings, and exactly the same faults.  A run on it ends as before and
writes the same beside the output. -/
theorem scan_and_runFile_withReturns (source : Bytes) :
    scan (withReturns source) =
        ⟨(scan source).tokens.map Token.withReturns, (scan source).diagnostics⟩ ∧
      (∀ token ∈ (scan source).tokens,
        token.withReturns = token ∨ token.kind = .string ∧ newline ∈ token.lexeme) ∧
      ∀ options,
        (runFile options (withReturns source)).exit.status =
            (runFile options source).exit.status ∧
          beside (runFile options (withReturns source)).transcript =
            beside (runFile options source).transcript := by
  refine ⟨?_, fun _ => withReturns_eq_self_or_string, ?_⟩
  · rw [← tokens_withReturns, ← diagnostics_withReturns]
  · intro options
    refine ⟨?_, ?_⟩
    · rw [runFile_status, diagnostics_withReturns, runFile_status]
    · rw [beside_runFile, faultLines_withReturns, beside_runFile]

example : scan (withReturns (ascii "// a\n\"b\n\"/*\n")) =
    ⟨[⟨.string, ascii "\"b\r\n\"", some (.string (ascii "b\r\n")), 2⟩, .endOfFile 4],
      [.ofFault .unterminatedComment 4]⟩ := by
  decide +kernel

end ScriptLexer.Console
