import Mathlib
import ScriptLexer.Proofs.Console.Report
import ScriptLexer.Proofs.Scan.Lines
import ScriptLexer.Proofs.Text.Pieces

namespace ScriptLexer

open Byte

/-! A text in a file and a text that is typed line by line.  Both show the same tokens and
report the same faults, as long as no line leaves a string or a comment open.
-/

def Diagnostic.onLine (number : Nat) (diagnostic : Diagnostic) : Diagnostic :=
  { diagnostic with line := number }

/-- What is reported on each line of a text when it is scanned by itself. -/
def lineReports (text : Bytes) : List (List Diagnostic) :=
  (lines text).map fun line => (scan line).diagnostics

/-- The reports on one line after another, with the numbers of the lines from `first` on. -/
def numbered (first : Nat) (reports : List (List Diagnostic)) : List Diagnostic :=
  (reports.zipIdx first).flatMap fun report => report.1.map (Diagnostic.onLine report.2)

theorem numbered_cons (first : Nat) (report : List Diagnostic) (later : List (List Diagnostic)) :
    numbered first (report :: later) =
      report.map (Diagnostic.onLine first) ++ numbered (first + 1) later := by
  rw [numbered, List.zipIdx_cons, List.flatMap_cons, ← numbered]

theorem map_moved_numbered (count first : Nat) (reports : List (List Diagnostic)) :
    (numbered first reports).map (Diagnostic.moved count) = numbered (first + count) reports := by
  induction reports generalizing first with
  | nil => rfl
  | cons report later ih =>
      rw [numbered_cons, List.map_append, ih, List.map_map, numbered_cons, Nat.add_right_comm]
      rfl

theorem numbered_eq_nil_iff {first : Nat} {reports : List (List Diagnostic)} :
    numbered first reports = [] ↔ ∀ report ∈ reports, report = [] := by
  induction reports generalizing first with
  | nil => simp [numbered]
  | cons report later ih =>
      rw [numbered_cons, List.append_eq_nil_iff, List.map_eq_nil_iff, ih, List.forall_mem_cons]

theorem diagnostic_line_of_unbroken {line : Bytes} (unbroken : newline ∉ line)
    {diagnostic : Diagnostic} (member : diagnostic ∈ (scan line).diagnostics) :
    diagnostic.line = 1 := by
  have upper := diagnostic_line_le member
  rw [lineAfter, newlines_eq_zero_iff.mpr unbroken] at upper
  exact Nat.le_antisymm upper (one_le_diagnostic_line member)

theorem map_onLine_diagnostics {line : Bytes} (unbroken : newline ∉ line) :
    (scan line).diagnostics.map (Diagnostic.onLine 1) = (scan line).diagnostics := by
  have same : ∀ diagnostic ∈ (scan line).diagnostics, diagnostic.onLine 1 = diagnostic := by
    intro diagnostic member
    rw [Diagnostic.onLine, ← diagnostic_line_of_unbroken unbroken member]
  rw [List.map_congr_left same, List.map_id']

/-! A text is scanned as its lines are, one by one. -/

theorem lineReports_append_newline {line : Bytes} (unbroken : newline ∉ line) (rest : Bytes) :
    lineReports (line ++ newline :: rest) = (scan line).diagnostics :: lineReports rest := by
  rw [lineReports, lines_append_newline unbroken, List.map_cons, ← lineReports]

theorem diagnostics_eq_numbered {text : Bytes} (closed : ∀ line ∈ lines text, Closes line) :
    (scan text).diagnostics = numbered 1 (lineReports text) := by
  induction text using lines_induction with
  | nil =>
      rw [lineReports, lines_nil, diagnostics_eq_filterMap, placedSegments, segments_nil]
      rfl
  | last line someBytes unbroken =>
      rw [lineReports, lines_of_unbroken someBytes unbroken, List.map_singleton, numbered_cons,
        map_onLine_diagnostics unbroken]
      exact (List.append_nil _).symm
  | cons line rest unbroken ih =>
      rw [lines_append_newline unbroken, List.forall_mem_cons] at closed
      have oneLine : lineAfter line = 1 := by
        rw [lineAfter, newlines_eq_zero_iff.mpr unbroken]
      rw [diagnostics_append_newline closed.1, ih closed.2, oneLine, map_moved_numbered,
        lineReports_append_newline unbroken, numbered_cons, map_onLine_diagnostics unbroken]

theorem displays_body_eq_flatMap {text : Bytes} (closed : ∀ line ∈ lines text, Closes line) :
    displays (scan text).body = (lines text).flatMap fun line => displays (scan line).body := by
  induction text using lines_induction with
  | nil =>
      rw [lines_nil, body_eq, placedSegments, segments_nil]
      rfl
  | last line someBytes unbroken =>
      rw [lines_of_unbroken someBytes unbroken, List.flatMap_singleton]
  | cons line rest unbroken ih =>
      rw [lines_append_newline unbroken, List.forall_mem_cons] at closed
      rw [body_append_newline closed.1, displays_append, displays_moved, ih closed.2,
        lines_append_newline unbroken, List.flatMap_cons]

namespace Console

open Transcript

theorem beside_runPrompt_eq_flatten (options : Options) (input : Bytes) :
    beside (runPrompt options input).transcript =
      (lineReports input).flatten.flatMap messageLines := by
  rw [beside_runPrompt, lineReports, ← List.flatMap_def, List.flatMap_assoc]

/-- The tokens that the prompt shows for the lines of a text are those that are shown for
the text in a file, and the faults that it reports are those of the file once each has the
number of its line. -/
theorem runFile_agrees_with_runPrompt (quiet shown typed : Bool) (text : Bytes)
    (closed : ∀ line ∈ lines text, Closes line) :
    textOn .output (runPrompt ⟨quiet, typed⟩ text).transcript =
        ((lines text).flatMap fun line =>
          ascii "> " ++ if quiet then [] else displays (scan line).body ++ ascii "EOF\n") ++
          ascii "> \n" ∧
      textOn .output (runFile ⟨quiet, shown⟩ text).transcript =
        (if quiet then []
          else ((lines text).flatMap fun line => displays (scan line).body) ++ ascii "EOF\n") ∧
      beside (runPrompt ⟨quiet, typed⟩ text).transcript =
        (lineReports text).flatten.flatMap messageLines ∧
      (∀ report ∈ lineReports text, ∀ diagnostic ∈ report, diagnostic.line = 1) ∧
      beside (runFile ⟨quiet, shown⟩ text).transcript =
        (numbered 1 (lineReports text)).flatMap (diagnosticLines ⟨quiet, shown⟩ (pieces text)) ++
          (if numbered 1 (lineReports text) = [] then []
            else errorCount (numbered 1 (lineReports text)).length) ∧
      ((runFile ⟨quiet, shown⟩ text).exit.status = 65 ↔ ∃ report ∈ lineReports text, report ≠ []) ∧
      ((runFile ⟨quiet, shown⟩ text).exit.status = 0 ↔ ∀ report ∈ lineReports text, report = []) ∧
      (runPrompt ⟨quiet, typed⟩ text).exit.status = 0 := by
  have diagnostics := diagnostics_eq_numbered closed
  refine ⟨textOn_output_runPrompt _ text, ?_, beside_runPrompt_eq_flatten _ text, ?_, ?_, ?_, ?_,
    rfl⟩
  · rw [textOn_output_runFile, displays_body_eq_flatMap closed]
  · intro report member
    obtain ⟨line, inside, rfl⟩ := List.mem_map.mp member
    exact fun _ => diagnostic_line_of_unbroken (newline_notMem_of_mem_lines inside)
  · rw [beside_runFile, faultLines, diagnostics]
  · simp [runFile_status, diagnostics, numbered_eq_nil_iff]
  · simp [runFile_status, diagnostics, numbered_eq_nil_iff]

/-- Three lines with tokens, faults and a comment, and an empty one between them. -/
theorem runFile_agrees_on_four_lines :
    (∀ line ∈ lines (ascii "a @ // \"\n\n1.\n@"), Closes line) ∧
      textOn .output (runFile ⟨false, true⟩ (ascii "a @ // \"\n\n1.\n@")).transcript =
        ascii "IDENTIFIER a\nNUMBER 1 1\nDOT .\nEOF\n" ∧
      numbered 1 (lineReports (ascii "a @ // \"\n\n1.\n@")) =
        [.ofFault .unexpectedCharacter 1, .ofFault .unexpectedCharacter 4] ∧
      (runFile ⟨false, true⟩ (ascii "a @ // \"\n\n1.\n@")).exit.status = 65 := by
  have closed : ∀ line ∈ lines (ascii "a @ // \"\n\n1.\n@"), Closes line := by decide +kernel
  obtain ⟨_, output, _, _, _, failed, _, _⟩ :=
    runFile_agrees_with_runPrompt false true true (ascii "a @ // \"\n\n1.\n@") closed
  refine ⟨closed, ?_, by decide +kernel, failed.mpr ?_⟩
  · rw [output]
    decide +kernel
  · exact ⟨[.ofFault .unexpectedCharacter 1], by decide +kernel, by decide⟩

end Console

end ScriptLexer
