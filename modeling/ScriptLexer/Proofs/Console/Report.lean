import Mathlib
import ScriptLexer.Console
import ScriptLexer.Proofs.Scan.Seam

namespace ScriptLexer

/-! What a run writes.  Tokens go to the output, each with a newline behind it, and all
that is said about faults goes beside it.
-/

def displays (tokens : List Token) : Bytes :=
  tokens.flatMap fun token => token.display ++ [Byte.newline]

theorem displays_append (first second : List Token) :
    displays (first ++ second) = displays first ++ displays second :=
  List.flatMap_append

/-- A token looks the same on every line. -/
theorem displays_moved (count : Nat) (tokens : List Token) :
    displays (tokens.map (Token.moved count)) = displays tokens :=
  List.flatMap_map ..

theorem displays_endOfFile (line : Nat) : displays [.endOfFile line] = ascii "EOF\n" := by
  have text : ascii "EOF" ++ [Byte.newline] = ascii "EOF\n" := by decide +kernel
  simpa [displays, Token.display, Token.endOfFile, Kind.name] using text

theorem displays_tokens (source : Bytes) :
    displays (scan source).tokens = displays (scan source).body ++ ascii "EOF\n" := by
  rw [tokens_eq_body, displays_append, displays_endOfFile]

namespace Transcript

variable {first second : Transcript}

/-- What is written elsewhere than on the output. -/
def beside (transcript : Transcript) : Transcript :=
  transcript.filter fun piece => piece.channel ≠ .output

/-- Nothing is written on the output. -/
def Silent (transcript : Transcript) : Prop :=
  ∀ piece ∈ transcript, piece.channel ≠ .output

theorem beside_append (first second : Transcript) :
    beside (first ++ second) = beside first ++ beside second :=
  List.filter_append _ _

theorem beside_flatMap {α : Type} (written : α → Transcript) (items : List α) :
    beside (items.flatMap written) = items.flatMap fun item => beside (written item) :=
  List.filter_flatMap

theorem Silent.beside_eq (silent : first.Silent) : beside first = first := by
  apply List.filter_eq_self.mpr
  intro piece member
  exact decide_eq_true (silent piece member)

theorem Silent.textOn_output (silent : first.Silent) : textOn .output first = [] := by
  have none : first.filter (fun piece => piece.channel = .output) = [] := by
    apply List.filter_eq_nil_iff.mpr
    intro piece member
    simpa using silent piece member
  rw [textOn, none]
  rfl

theorem Silent.append (silentFirst : first.Silent) (silentSecond : second.Silent) :
    (first ++ second).Silent := by
  intro piece member
  rcases List.mem_append.mp member with inFirst | inSecond
  · exact silentFirst piece inFirst
  · exact silentSecond piece inSecond

theorem silent_flatMap {α : Type} {written : α → Transcript}
    (silent : ∀ item, (written item).Silent) (items : List α) :
    Silent (items.flatMap written) := by
  intro piece member
  obtain ⟨item, _, inside⟩ := List.mem_flatMap.mp member
  exact silent item piece inside

theorem textOn_flatMap {α : Type} (channel : Channel) (written : α → Transcript)
    (items : List α) :
    textOn channel (items.flatMap written) =
      items.flatMap fun item => textOn channel (written item) := by
  rw [textOn, List.filter_flatMap, List.flatMap_assoc]
  rfl

end Transcript

namespace Console

open Transcript

variable (options : Options)

/-- What is said of a fault, apart from the line of the script that may follow. -/
def messageLines (diagnostic : Diagnostic) : Transcript :=
  [⟨.error, ascii "[line " ++ Numeral.ofNat diagnostic.line ++ ascii "] "⟩,
    ⟨.emphasis, ascii "Error"⟩,
    ⟨.error, ascii ": " ++ diagnostic.message ++ ascii "\n"⟩]

theorem diagnosticLines_eq (sourcePieces : List Bytes) (diagnostic : Diagnostic) :
    diagnosticLines options sourcePieces diagnostic =
      messageLines diagnostic ++
        if options.showSource then excerpt sourcePieces diagnostic.line else [] := rfl

theorem channel_of_mem_excerpt {sourcePieces : List Bytes} {line : Nat} {piece : Piece}
    (member : piece ∈ excerpt sourcePieces line) : piece.channel = .error := by
  unfold excerpt at member
  split at member
  · cases member
  · split at member
    · cases member
    · rw [List.mem_singleton.mp member]

theorem channel_of_mem_diagnosticLines {sourcePieces : List Bytes} {diagnostic : Diagnostic}
    {piece : Piece} (member : piece ∈ diagnosticLines options sourcePieces diagnostic) :
    piece.channel = .error ∨ piece.channel = .emphasis := by
  rw [diagnosticLines_eq] at member
  rcases List.mem_append.mp member with inMessage | inExcerpt
  · have either : ∀ part ∈ messageLines diagnostic,
        part.channel = .error ∨ part.channel = .emphasis := by
      simp [messageLines]
    exact either piece inMessage
  · split at inExcerpt
    · exact .inl (channel_of_mem_excerpt inExcerpt)
    · cases inExcerpt

theorem silent_diagnosticLines (sourcePieces : List Bytes) (diagnostic : Diagnostic) :
    (diagnosticLines options sourcePieces diagnostic).Silent := by
  intro piece member
  rcases channel_of_mem_diagnosticLines options member with same | same
  · rw [same]
    nofun
  · rw [same]
    nofun

theorem silent_errorCount (count : Nat) : (errorCount count).Silent := by
  simp [Silent, errorCount]

theorem textOn_output_tokenLines (tokens : List Token) :
    textOn .output (tokenLines options tokens) = if options.quiet then [] else displays tokens := by
  unfold tokenLines
  split
  · rfl
  · simp [textOn, List.filter_map, List.flatMap_map, displays, Function.comp_def]

theorem channel_of_mem_tokenLines {tokens : List Token} {piece : Piece}
    (member : piece ∈ tokenLines options tokens) : piece.channel = .output := by
  unfold tokenLines at member
  split at member
  · cases member
  · obtain ⟨token, _, rfl⟩ := List.mem_map.mp member
    rfl

theorem beside_tokenLines (tokens : List Token) : beside (tokenLines options tokens) = [] := by
  apply List.filter_eq_nil_iff.mpr
  intro piece member
  simpa using channel_of_mem_tokenLines options member

/-- All that a run says about faults, one by one and then how many. -/
def faultLines (content : Bytes) : Transcript :=
  (scan content).diagnostics.flatMap (diagnosticLines options (pieces content)) ++
    if (scan content).diagnostics = [] then [] else errorCount (scan content).diagnostics.length

theorem silent_faultLines (content : Bytes) : (faultLines options content).Silent := by
  apply Silent.append (silent_flatMap (silent_diagnosticLines options _) _)
  split
  · nofun
  · exact silent_errorCount _

theorem runFile_transcript (content : Bytes) :
    (runFile options content).transcript =
      tokenLines options (scan content).tokens ++ faultLines options content := by
  rw [runFile, faultLines, ← List.append_assoc]
  split
  · rw [List.append_nil]
    rfl
  · rfl

theorem runFile_status (content : Bytes) :
    (runFile options content).exit.status =
      if (scan content).diagnostics = [] then 0 else 65 := by
  rw [runFile]
  split <;> rfl

theorem textOn_output_runFile (content : Bytes) :
    textOn .output (runFile options content).transcript =
      if options.quiet then [] else displays (scan content).body ++ ascii "EOF\n" := by
  rw [runFile_transcript, textOn_append, textOn_output_tokenLines, displays_tokens,
    (silent_faultLines options content).textOn_output, List.append_nil]

theorem beside_runFile (content : Bytes) :
    beside (runFile options content).transcript = faultLines options content := by
  rw [runFile_transcript, beside_append, beside_tokenLines,
    (silent_faultLines options content).beside_eq, List.nil_append]

theorem textOn_output_answerLine (line : Bytes) :
    textOn .output (answerLine options line) =
      if options.quiet then [] else displays (scan line).body ++ ascii "EOF\n" := by
  rw [answerLine, scanLines, textOn_append, textOn_output_tokenLines, displays_tokens,
    (silent_flatMap (silent_diagnosticLines _ _) _).textOn_output, List.append_nil]

theorem beside_answerLine (line : Bytes) :
    beside (answerLine options line) = (scan line).diagnostics.flatMap messageLines := by
  rw [answerLine, scanLines, beside_append, beside_tokenLines,
    (silent_flatMap (silent_diagnosticLines _ _) _).beside_eq, List.nil_append]
  rfl

theorem textOn_output_runPrompt (input : Bytes) :
    textOn .output (runPrompt options input).transcript =
      ((lines input).flatMap fun line =>
        ascii "> " ++
          if options.quiet then [] else displays (scan line).body ++ ascii "EOF\n") ++
        ascii "> \n" := by
  have each (line : Bytes) : textOn .output (promptMark ++ answerLine options line) =
      ascii "> " ++ if options.quiet then [] else displays (scan line).body ++ ascii "EOF\n" := by
    rw [textOn_append, textOn_output_answerLine]
    rfl
  rw [runPrompt, List.append_assoc, textOn_append, textOn_flatMap, funext each]
  rfl

theorem beside_runPrompt (input : Bytes) :
    beside (runPrompt options input).transcript =
      (lines input).flatMap fun line => (scan line).diagnostics.flatMap messageLines := by
  have each (line : Bytes) : beside (promptMark ++ answerLine options line) =
      (scan line).diagnostics.flatMap messageLines := by
    rw [beside_append, beside_answerLine]
    rfl
  rw [runPrompt, List.append_assoc, beside_append, beside_flatMap, funext each]
  exact List.append_nil _

end Console

end ScriptLexer
