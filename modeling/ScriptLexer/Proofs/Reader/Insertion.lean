import Mathlib
import ScriptLexer.Proofs.Reader.Resumption
import ScriptLexer.Proofs.Scan.Insertion

namespace ScriptLexer.Reader

open Byte

/-! Runs on a script with one more blank.  A run cannot tell whether there is a blank where its
main loop comes to its head, and it always can where the blank breaks a lexeme.
-/

variable {reader middle : Reader} {sink held : Collector} {source : Bytes} {byte : UInt8}

theorem isBlank_of_mem (blank : byte ∈ [space, tab, carriageReturn]) :
    isBlank byte = true ∧ byte ≠ newline := by
  simp only [List.mem_cons, List.not_mem_nil, or_false] at blank
  rcases blank with rfl | rfl | rfl <;> decide

/-- The loop ends at its head, behind the last byte. -/
theorem exists_reaches_end (source : Bytes) (sink : Collector) :
    ∃ middle held, (opened source).Reaches sink middle held ∧ middle.current = source.length := by
  have whole : segments (opened source).source = segments source ++ [] :=
    (List.append_nil _).symm
  obtain ⟨middle, held, reached, state⟩ := exists_reaches_of_split sink whole
  refine ⟨middle, held, reached, ?_⟩
  rw [state.current, flatMap_text_segments]

theorem Reaches.scan_withByte (reached : reader.Reaches sink middle held)
    (blank : byte ∈ [space, tab, carriageReturn]) :
    scan (withByte reader.source middle.current byte) = scan reader.source := by
  obtain ⟨isBlank, notNewline⟩ := isBlank_of_mem blank
  obtain ⟨front, back, state⟩ := reached.exists_standsBehind
  rw [state.current]
  exact scan_withByte_of_split isBlank notNewline state.cut

/-- A blank that ends no line changes nothing at the head of the main loop, up to the end of the
source, and changes the tokens wherever it breaks the lexeme of one. -/
theorem scanTokens?_withByte (source : Bytes) (sink : Collector) (byte : UInt8)
    (blank : byte ∈ [space, tab, carriageReturn]) :
    ∃ tokens diagnostics used,
      (opened source).scanTokens? sink = some (tokens, used, sink.report diagnostics) ∧
        (∃ middle held, (opened source).Reaches sink middle held ∧
          middle.current = source.length) ∧
        (∀ middle held, (opened source).Reaches sink middle held →
          ∃ usedAfter, (opened (withByte source middle.current byte)).scanTokens? sink =
            some (tokens, usedAfter, sink.report diagnostics)) ∧
        (tokenPlaces source).map Prod.snd = tokens ∧
        ∀ place ∈ tokenPlaces source, place.2.lexeme <+: source.drop place.1 ∧
          ∀ offset, place.1 < offset → offset < place.1 + place.2.lexeme.length →
            ∃ changed usedAfter sinkAfter,
              (opened (withByte source offset byte)).scanTokens? sink =
                some (changed, usedAfter, sinkAfter) ∧ changed ≠ tokens := by
  obtain ⟨used, _, given⟩ := Reader.scanTokens?_eq (opened source) sink
  refine ⟨_, _, used, given, exists_reaches_end source sink, ?_, map_snd_tokenPlaces source, ?_⟩
  · intro middle held reached
    have same := reached.scan_withByte blank
    obtain ⟨usedAfter, _, anew⟩ :=
      Reader.scanTokens?_eq (opened (withByte source middle.current byte)) sink
    refine ⟨usedAfter, ?_⟩
    rw [anew, ← same]
    rfl
  · intro place member
    refine ⟨lexeme_prefix_of_mem_tokenPlaces member, ?_⟩
    intro offset behind within
    obtain ⟨usedAfter, _, anew⟩ :=
      Reader.scanTokens?_eq (opened (withByte source offset byte)) sink
    exact ⟨_, usedAfter, _, anew,
      tokens_withByte_ne member behind within (isBlank_of_mem blank).1⟩

/-- A comment takes in the blank behind it, and a number breaks behind its point. -/
theorem scanTokens?_withByte_comment_and_point :
    ∃ tokens sinkAfter used usedAfter,
      (opened (ascii "12.5// x")).scanTokens? .empty = some (tokens, used, sinkAfter) ∧
        (opened (ascii "12.5// x ")).scanTokens? .empty = some (tokens, usedAfter, sinkAfter) ∧
        ∃ changed usedChanged sinkChanged,
          (opened (ascii "12. 5// x")).scanTokens? .empty =
            some (changed, usedChanged, sinkChanged) ∧ changed ≠ tokens := by
  obtain ⟨tokens, diagnostics, used, given, ⟨middle, held, reached, atEnd⟩, kept, places, broken⟩ :=
    scanTokens?_withByte (ascii "12.5// x") .empty space (by decide)
  have commentTakesBlank : withByte (ascii "12.5// x") (ascii "12.5// x").length space =
      ascii "12.5// x " := by
    decide
  have numberBreaks : withByte (ascii "12.5// x") 3 space = ascii "12. 5// x" := by decide
  obtain ⟨usedAfter, same⟩ := kept middle held reached
  rw [atEnd, commentTakesBlank] at same
  have number : (0, ⟨.number, ascii "12.5", some (.number (.ofDecimal ⟨125, -1⟩)), 1⟩) ∈
      tokenPlaces (ascii "12.5// x") := by
    decide +kernel
  have changed := (broken _ number).2 3 (by decide) (by decide)
  rw [numberBreaks] at changed
  exact ⟨tokens, _, used, usedAfter, given, same, changed⟩

end ScriptLexer.Reader
