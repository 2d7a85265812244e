import Mathlib
import ScriptLexer.Proofs.Console.Excerpts
import ScriptLexer.Proofs.Console.Prompt
import ScriptLexer.Proofs.Scan.Faultless

namespace ScriptLexer.Console

open Transcript

/-! How a run on a file ends, and what the options change about it. -/

variable (options : Options)

/-- The word that stands out is written once for each fault. -/
theorem on_emphasis_joined_diagnosticLines_append (sourcePieces : List Bytes)
    (diagnostic : Diagnostic) (behind : Transcript) :
    on .emphasis (joined (diagnosticLines options sourcePieces diagnostic ++ behind)) =
      ⟨.emphasis, ascii "Error"⟩ :: on .emphasis (joined behind) := by
  have word : ascii "Error" ≠ [] := by decide +kernel
  have message : ascii ": " ++ diagnostic.message ++ ascii "\n" ≠ [] := by
    have starts : ascii ": " ≠ [] := by decide +kernel
    simp [starts]
  have excerptElsewhere :
      ∀ piece ∈ (if options.showSource then excerpt sourcePieces diagnostic.line else []),
        piece.channel ≠ .emphasis := by
    intro piece member
    split at member
    · rw [channel_of_mem_excerpt member]
      nofun
    · cases member
  have elsewhere : Channel.error ≠ .emphasis := by decide
  have excerptUnseen := on_joined_append_of_elsewhere excerptElsewhere behind
  rw [diagnosticLines_eq, List.append_assoc, messageLines, List.cons_append,
    on_joined_cons_of_ne elsewhere, List.cons_append, joined_cons_of_text word, List.cons_append,
    joined_cons_of_text message, push_push_of_ne elsewhere.symm, List.nil_append,
    ← excerptUnseen, on, List.filter_cons_of_pos (by rfl), ← on, on_push_of_ne elsewhere]

theorem on_emphasis_joined_faults (sourcePieces : List Bytes) (diagnostics : List Diagnostic)
    (behind : Transcript) :
    on .emphasis (joined (diagnostics.flatMap (diagnosticLines options sourcePieces) ++ behind)) =
      List.replicate diagnostics.length ⟨.emphasis, ascii "Error"⟩ ++
        on .emphasis (joined behind) := by
  induction diagnostics with
  | nil => rfl
  | cons diagnostic diagnostics ih =>
      rw [List.flatMap_cons, List.append_assoc, on_emphasis_joined_diagnosticLines_append, ih]
      rfl

theorem on_emphasis_noteOf (count : Nat) : on .emphasis (noteOf count) = [] := by
  unfold noteOf
  split <;> rfl

theorem on_emphasis_runFile (content : Bytes) :
    on .emphasis (runFile options content).transcript.joined =
      List.replicate (scan content).diagnostics.length ⟨.emphasis, ascii "Error"⟩ := by
  have noToken : ∀ piece ∈ tokenLines options (scan content).tokens, piece.channel ≠ .emphasis := by
    intro piece member
    rw [channel_of_mem_tokenLines options member]
    nofun
  rw [runFile_transcript, on_joined_append_of_elsewhere noToken, faultLines_eq,
    on_emphasis_joined_faults, joined_noteOf, on_emphasis_noteOf, List.append_nil]

/-- A fault is told with the words of its diagnostic. -/
theorem text_messageLines (diagnostic : Diagnostic) :
    text (messageLines diagnostic) = diagnostic.format ++ [Byte.newline] := by
  have word : ascii "] Error: " = ascii "] " ++ ascii "Error" ++ ascii ": " := by decide +kernel
  have last : ascii "\n" = [Byte.newline] := by decide +kernel
  simp [text, messageLines, Diagnostic.format, word, last]

theorem text_flatMap_messageLines (diagnostics : List Diagnostic) :
    text (diagnostics.flatMap messageLines) =
      diagnostics.flatMap fun diagnostic => diagnostic.format ++ [Byte.newline] := by
  rw [text, List.flatMap_assoc]
  exact List.flatMap_congr fun diagnostic _ => text_messageLines diagnostic

theorem diagnosticLines_of_mem {content : Bytes} {diagnostic : Diagnostic} (quiet shown : Bool)
    (member : diagnostic ∈ (scan content).diagnostics) :
    diagnosticLines ⟨quiet, shown⟩ (pieces content) diagnostic =
      messageLines diagnostic ++
        (if shown then
          [excerptPiece diagnostic.line ((pieces content).getD (diagnostic.line - 1) [])]
        else []) := by
  cases shown with
  | true => exact diagnosticLines_of_shown quiet member
  | false => rfl

theorem faultLines_of_shown (quiet shown : Bool) (content : Bytes) :
    faultLines ⟨quiet, shown⟩ content =
      ((scan content).diagnostics.flatMap fun diagnostic =>
        messageLines diagnostic ++
          (if shown then
            [excerptPiece diagnostic.line ((pieces content).getD (diagnostic.line - 1) [])]
          else [])) ++
        noteOf (scan content).diagnostics.length := by
  rw [faultLines_eq, List.flatMap_congr fun _ => diagnosticLines_of_mem quiet shown]

/-- A run on a file succeeds just if the script has no fault, and otherwise counts the faults
in a note behind all that it says about them.  Not to write tokens, and to show lines of the
script, takes something away or puts something in between and changes nothing else. -/
theorem runFile_outcome (content : Bytes) :
    (∀ options name typed,
      ((run options [name] (.ok content) typed).exit.status = 0 ↔ Faultless content) ∧
        ((run options [name] (.ok content) typed).exit.status = 65 ↔ ¬ Faultless content) ∧
        run options [name] (.ok content) typed = runFile options content) ∧
      (∀ options others,
        (runFile options content).exit.status = (runFile others content).exit.status) ∧
      (∀ options,
        (runFile options content).transcript.joined =
            beforeNote (runFile options content).transcript.joined ++
              (if (scan content).diagnostics.length = 0 then []
              else
                [⟨.noteLabel, ascii "hakarl"⟩,
                  ⟨.error, Numeral.ofNat (scan content).diagnostics.length ++
                    ascii (if (scan content).diagnostics.length = 1 then " error" else " errors") ++
                    ascii " generated.\n"⟩]) ∧
          on .emphasis (runFile options content).transcript.joined =
            List.replicate (scan content).diagnostics.length ⟨.emphasis, ascii "Error"⟩) ∧
      (∀ quiet, textOn .output (runFile ⟨quiet, true⟩ content).transcript =
        textOn .output (runFile ⟨quiet, false⟩ content).transcript) ∧
      (∀ shown, textOn .output (runFile ⟨true, shown⟩ content).transcript = []) ∧
      (∀ shown, beside (runFile ⟨true, shown⟩ content).transcript.joined =
        beside (runFile ⟨false, shown⟩ content).transcript.joined) ∧
      (∀ quiet, text (beforeNote (beside (runFile ⟨quiet, false⟩ content).transcript.joined)) =
        (scan content).diagnostics.flatMap fun diagnostic =>
          diagnostic.format ++ [Byte.newline]) ∧
      ∀ quiet shown, beside (runFile ⟨quiet, shown⟩ content).transcript.joined =
        joined (((scan content).diagnostics.flatMap fun diagnostic =>
          messageLines diagnostic ++
            (if shown then
              [excerptPiece diagnostic.line ((pieces content).getD (diagnostic.line - 1) [])]
            else [])) ++
          noteOf (scan content).diagnostics.length) := by
  have status (options : Options) : (runFile options content).exit.status =
      if (scan content).diagnostics = [] then 0 else 65 := runFile_status options content
  refine ⟨?_, ?_, ?_, ?_, ?_, ?_, ?_, ?_⟩
  · intro options name typed
    have same : run options [name] (.ok content) typed = runFile options content := rfl
    rw [same, status, ← diagnostics_eq_nil_iff_faultless]
    by_cases none : (scan content).diagnostics = []
    · simp [none]
    · simp [none]
  · intro options others
    rw [status, status]
  · intro options
    refine ⟨?_, on_emphasis_runFile options content⟩
    rw [beforeNote_runFile, joined_runFile]
    rfl
  · intro quiet
    rw [textOn_output_runFile, textOn_output_runFile]
  · intro shown
    rw [textOn_output_runFile]
    rfl
  · intro shown
    rw [beside_joined_runFile, beside_joined_runFile, faultLines_of_shown, faultLines_of_shown]
  · intro quiet
    have noNote := channel_ne_noteLabel_of_mem_faults ⟨quiet, false⟩ (pieces content)
      (scan content).diagnostics
    rw [beside_joined_runFile, faultLines_eq, beforeNote_joined_append_noteOf noNote, text_joined]
    exact text_flatMap_messageLines _
  · intro quiet shown
    rw [beside_joined_runFile, faultLines_of_shown]

end ScriptLexer.Console
