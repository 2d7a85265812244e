import Mathlib
import ScriptLexer.Proofs.Console.Joined
import ScriptLexer.Proofs.Console.Modes

namespace ScriptLexer.Console

open Byte Transcript

/-! The prompt answers each line as a file of that line alone would be answered, short of the
note that counts the errors.
-/

variable (options : Options)

theorem beside_runPrompt_of_first_line (input : Bytes) :
    beside (runPrompt options input).transcript =
      ((lines input).flatMap fun line => (scan line).diagnostics).flatMap fun diagnostic =>
        [⟨.error, ascii "[line 1] "⟩, ⟨.emphasis, ascii "Error"⟩,
          ⟨.error, ascii ": " ++ diagnostic.message ++ ascii "\n"⟩] := by
  have numeral : ascii "[line " ++ Numeral.ofNat 1 ++ ascii "] " = ascii "[line 1] " := by
    decide +kernel
  rw [beside_runPrompt, List.flatMap_assoc]
  apply List.flatMap_congr
  intro line isLine
  apply List.flatMap_congr
  intro diagnostic reported
  have first : diagnostic.line = 1 :=
    diagnostic_line_of_unbroken (newline_notMem_of_mem_lines isLine) reported
  rw [messageLines, first, numeral]

/-- The prompt ends well and writes, for one line after another, its mark and what a file of
just that line gives before the note.  Each fault is reported on line one with no part of the
script under it, whether or not that is asked for. -/
theorem runPrompt_answers_lines_alone (quiet shown : Bool) (input : Bytes) :
    (runPrompt ⟨quiet, shown⟩ input).exit.status = 0 ∧
      (runPrompt ⟨quiet, shown⟩ input).transcript.joined =
        joined (((lines input).flatMap fun line =>
            ⟨.output, ascii "> "⟩ :: beforeNote (runFile ⟨quiet, false⟩ line).transcript.joined) ++
          [⟨.output, ascii "> "⟩, ⟨.output, ascii "\n"⟩]) ∧
      (∀ line, (runFile ⟨quiet, false⟩ line).transcript.joined =
        beforeNote (runFile ⟨quiet, false⟩ line).transcript.joined ++
          noteOf (scan line).diagnostics.length) ∧
      beside (runPrompt ⟨quiet, shown⟩ input).transcript =
        (((lines input).flatMap fun line => (scan line).diagnostics).flatMap fun diagnostic =>
          [⟨.error, ascii "[line 1] "⟩, ⟨.emphasis, ascii "Error"⟩,
            ⟨.error, ascii ": " ++ diagnostic.message ++ ascii "\n"⟩]) ∧
      runPrompt ⟨quiet, shown⟩ input = runPrompt ⟨quiet, !shown⟩ input := by
  refine ⟨rfl, ?_, ?_, beside_runPrompt_of_first_line _ input, rfl⟩
  · have block (line : Bytes) :
        joined (promptMark ++ answerLine ⟨quiet, shown⟩ line) =
          joined (⟨.output, ascii "> "⟩ ::
            beforeNote (runFile ⟨quiet, false⟩ line).transcript.joined) := by
      rw [beforeNote_runFile]
      exact (joined_append_joined promptMark _).symm
    rw [runPrompt, List.append_assoc]
    exact joined_append_congr (joined_flatMap_congr block _) rfl
  · intro line
    rw [beforeNote_runFile, joined_runFile]

end ScriptLexer.Console
