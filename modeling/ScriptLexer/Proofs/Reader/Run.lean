import Mathlib
import ScriptLexer.Proofs.Reader.Step

namespace ScriptLexer.Reader

/-! Whole runs of a reader.  The main loop goes through the segments of what is ahead, and
since everything is reset before it, nothing that an earlier run has left can be told from
the outcome.
-/

variable {reader : Reader} {sink : Collector}

/-- The main loop ends, and it ends behind the last segment. -/
theorem scanFrom?_of_standing {cut : List Segment} (standing : Standing cut)
    (text : reader.ahead = cut.flatMap Segment.text) :
    ∃ after : Reader,
      reader.scanFrom? sink =
          some (after, sink.report
            ((placedFrom reader.current reader.line cut).filterMap Placed.diagnostic?)) ∧
        after.source = reader.source ∧
        after.line = lineBehind reader.line cut ∧
        after.tokens = reader.tokens ++
          (placedFrom reader.current reader.line cut).filterMap Placed.token? := by
  induction cut generalizing reader sink with
  | nil =>
      refine ⟨reader, ?_, rfl, rfl, (List.append_nil _).symm⟩
      rw [scanFrom?_eq, if_pos (atEnd_of_ahead text), placedFrom, List.filterMap_nil, Collector.report_nil]
  | cons segment cut ih =>
      obtain ⟨stands, standing⟩ := standing
      rw [List.flatMap_cons] at text
      have unread : ¬ reader.atEnd = true := by
        have nonempty := Segment.text_ne_nil_of_wellFormed stands.wellFormed
        simp [atEnd_eq, text, nonempty]
      have fresh : reader.beginLexeme.start = reader.beginLexeme.current := rfl
      have stepped : reader.beginLexeme.scanToken? sink =
          some (reader.beginLexeme.behind sink segment) :=
        scanToken?_of_stands fresh text stands
      have ahead : (reader.beginLexeme.behind sink segment).1.ahead = cut.flatMap Segment.text :=
        ahead_past text
      obtain ⟨after, ends, source, line, tokens⟩ :=
        @ih _ (reader.beginLexeme.behind sink segment).2 standing ahead
      refine ⟨after, ?_, source, line, ?_⟩
      · rw [scanFrom?_eq, if_neg unread, stepped, Option.bind_some, ends, behind,
          Collector.report_report, List.filterMap_eq_flatMap_toList,
          List.filterMap_eq_flatMap_toList, placedFrom, List.flatMap_cons]
        rfl
      · rw [tokens, behind, List.append_assoc, List.filterMap_eq_flatMap_toList,
          List.filterMap_eq_flatMap_toList, placedFrom, List.flatMap_cons]
        rfl

/-- What a reader has been used for leaves no trace in what it gives for its source. -/
theorem scanTokens?_eq (reader : Reader) (sink : Collector) :
    ∃ used : Reader, used.source = reader.source ∧
      reader.scanTokens? sink =
        some ((scan reader.source).tokens, used,
          sink.report (scan reader.source).diagnostics) := by
  have ahead : reader.reset.ahead = (segments reader.source).flatMap Segment.text :=
    (flatMap_text_segments reader.source).symm
  obtain ⟨ended, ends, source, line, tokens⟩ :=
    @scanFrom?_of_standing _ sink _ (standing_segments reader.source) ahead
  have handed : ended.tokens ++ [.endOfFile ended.line] = (scan reader.source).tokens := by
    rw [tokens, line]
    rfl
  refine ⟨{ ended with tokens := [] }, source, ?_⟩
  rw [scanTokens?, ends, ← handed]
  rfl

end ScriptLexer.Reader
