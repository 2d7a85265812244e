import Mathlib
import ScriptLexer.Proofs.Reader.Run
import ScriptLexer.Proofs.Scan.Split

namespace ScriptLexer.Reader

/-! Runs from the middle of a source.  Whenever the main loop is about to begin a round, what it
still gives is what a fresh run gives on the text ahead, further down by the lines that are
behind: nothing that stands there has left a trace but the count of these lines.
-/

/-- The states in which the main loop of a run comes to its head, before the first round and
behind each. -/
inductive Reaches (reader : Reader) (sink : Collector) : Reader → Collector → Prop where
  | start : Reaches reader sink reader.reset sink
  | round {middle after : Reader} {held heldAfter : Collector}
      (reached : Reaches reader sink middle held) (unread : middle.atEnd = false)
      (scanned : middle.beginLexeme.scanToken? held = some (after, heldAfter)) :
      Reaches reader sink after heldAfter

/-- A state behind the first segments of a source, with all that these have given. -/
structure StandsBehind (source : Bytes) (sink : Collector) (front back : List Segment)
    (reader : Reader) (held : Collector) : Prop where
  source_eq : reader.source = source
  cut : segments source = front ++ back
  current : reader.current = (front.flatMap Segment.text).length
  line : reader.line = lineAfter (front.flatMap Segment.text)
  tokens : reader.tokens = (placedFrom 0 1 front).filterMap Placed.token?
  held_eq : held = sink.report ((placedFrom 0 1 front).filterMap Placed.diagnostic?)

variable {reader middle : Reader} {sink held : Collector} {source : Bytes}
  {front back : List Segment}

namespace StandsBehind

theorem start (reader : Reader) (sink : Collector) :
    StandsBehind reader.source sink [] (segments reader.source) reader.reset sink where
  source_eq := rfl
  cut := rfl
  current := rfl
  line := rfl
  tokens := rfl
  held_eq := sink.report_nil.symm

variable (state : StandsBehind source sink front back middle held)
include state

theorem text_behind : source.take middle.current = front.flatMap Segment.text := by
  rw [state.current, text_of_split state.cut, List.take_left]

theorem text_ahead : source.drop middle.current = back.flatMap Segment.text := by
  rw [state.current, text_of_split state.cut, List.drop_left]

/-- The next segment has its place at the cursor. -/
theorem placedFrom_concat (segment : Segment) :
    placedFrom 0 1 (front ++ [segment]) =
      placedFrom 0 1 front ++ [⟨segment, middle.current, middle.line⟩] := by
  rw [placedFrom_append, Nat.zero_add, ← state.current, ← lineAfter, ← state.line]
  rfl

/-- What is ahead has the places of a text of its own, moved behind the text that is past. -/
theorem placedFrom_ahead :
    placedFrom middle.current middle.line back =
      (placedSegments (source.drop middle.current)).map
        (Placed.moved middle.current (newlines (source.take middle.current))) := by
  rw [state.text_behind, state.text_ahead, placedSegments, segments_of_split state.cut,
    ← placedFrom_add, Nat.zero_add, state.line, lineAfter]

end StandsBehind

/-- A round goes on behind the next segment. -/
theorem StandsBehind.round {segment : Segment}
    (state : StandsBehind source sink front (segment :: back) middle held) :
    ∃ after heldAfter, middle.beginLexeme.scanToken? held = some (after, heldAfter) ∧
      StandsBehind source sink (front ++ [segment]) back after heldAfter := by
  have fresh : middle.beginLexeme.start = middle.beginLexeme.current := rfl
  have text : middle.beginLexeme.ahead = segment.text ++ back.flatMap Segment.text := by
    rw [← List.flatMap_cons, ← state.text_ahead, ← state.source_eq]
    rfl
  have stands : segment.Stands (back.flatMap Segment.text) :=
    (state.cut ▸ standing_segments source).stands_of_append
  have behind : (front ++ [segment]).flatMap Segment.text =
      front.flatMap Segment.text ++ segment.text := by
    rw [List.flatMap_append, List.flatMap_singleton]
  refine ⟨_, _, scanToken?_of_stands fresh text stands, ?_⟩
  exact {
    source_eq := state.source_eq
    cut := state.cut.trans (List.append_cons front segment back)
    current := by
      rw [behind, List.length_append, ← state.current]
      rfl
    line := by
      rw [behind, lineAfter_append, ← state.line]
      rfl
    tokens := by
      rw [state.placedFrom_concat, List.filterMap_append, ← state.tokens,
        List.filterMap_eq_flatMap_toList, List.flatMap_singleton]
      rfl
    held_eq := by
      rw [state.placedFrom_concat, List.filterMap_append, ← Collector.report_report,
        ← state.held_eq, List.filterMap_eq_flatMap_toList, List.flatMap_singleton]
      rfl }

theorem StandsBehind.not_atEnd {segment : Segment}
    (state : StandsBehind source sink front (segment :: back) middle held) :
    middle.atEnd = false := by
  have nonempty : segment.text ≠ [] := by
    apply text_ne_nil_of_mem_segments
    rw [state.cut]
    exact List.mem_append_right front List.mem_cons_self
  rw [atEnd_eq, ahead, state.source_eq, state.text_ahead, List.flatMap_cons]
  simp [nonempty]

/-- At the head of the main loop a reader is always behind segments of its source. -/
theorem Reaches.exists_standsBehind (reached : reader.Reaches sink middle held) :
    ∃ front back, StandsBehind reader.source sink front back middle held := by
  induction reached with
  | start => exact ⟨[], _, .start reader sink⟩
  | round _ unread scanned ih =>
      obtain ⟨front, back, state⟩ := ih
      cases back with
      | nil =>
          -- with nothing ahead there is no further round
          have ended := atEnd_of_ahead (state.source_eq ▸ state.text_ahead)
          rw [ended] at unread
          cases unread
      | cons segment back =>
          obtain ⟨_, _, rescanned, stateAfter⟩ := state.round
          cases Option.some.inj (scanned.symm.trans rescanned)
          exact ⟨_, back, stateAfter⟩

/-- The loop comes to its head behind every segment. -/
theorem exists_reaches_of_split (sink : Collector) (cut : segments reader.source = front ++ back) :
    ∃ middle held, reader.Reaches sink middle held ∧
      StandsBehind reader.source sink front back middle held := by
  induction front using List.reverseRecOn generalizing back with
  | nil =>
      rw [List.nil_append] at cut
      subst cut
      exact ⟨_, _, .start, .start reader sink⟩
  | append_singleton front segment ih =>
      rw [← List.append_cons] at cut
      obtain ⟨middle, held, reached, state⟩ := ih cut
      obtain ⟨after, heldAfter, scanned, stateAfter⟩ := state.round
      exact ⟨after, heldAfter, reached.round state.not_atEnd scanned, stateAfter⟩

/-- Rounds that have been made do not change what the loop comes to. -/
theorem Reaches.scanFrom?_eq (reached : reader.Reaches sink middle held) :
    reader.reset.scanFrom? sink = middle.scanFrom? held := by
  induction reached with
  | start => rfl
  | round _ unread scanned ih =>
      rw [ih, Reader.scanFrom?_eq, unread, if_neg Bool.false_ne_true, scanned, Option.bind_some]

/-- From the head of the loop on, a run gives what a scan of the text ahead gives. -/
theorem Reaches.scanTokens?_eq (reached : reader.Reaches sink middle held) :
    ∃ used, reader.scanTokens? sink =
      some (middle.tokens ++ (scan (reader.source.drop middle.current)).tokens.map
          (Token.moved (newlines (reader.source.take middle.current))), used,
        held.report ((scan (reader.source.drop middle.current)).diagnostics.map
          (Diagnostic.moved (newlines (reader.source.take middle.current))))) := by
  obtain ⟨front, back, state⟩ := reached.exists_standsBehind
  have standing : Standing back := (state.cut ▸ standing_segments reader.source).of_append
  have ahead : middle.ahead = back.flatMap Segment.text := by
    rw [← state.text_ahead, ← state.source_eq]
    rfl
  obtain ⟨after, ends, _, line, tokens⟩ := @scanFrom?_of_standing middle held _ standing ahead
  have lastLine : after.line = lineBehind 1 (segments (reader.source.drop middle.current)) +
      newlines (reader.source.take middle.current) := by
    rw [line, state.line, lineBehind_segments, state.text_behind, state.text_ahead, lineBehind_eq,
      lineAfter, lineAfter, Nat.add_right_comm]
  rw [state.placedFrom_ahead, filterMap_map_moved (diagnostic?_moved _ _)] at ends
  rw [state.placedFrom_ahead, filterMap_map_moved (token?_moved _ _)] at tokens
  have handed : after.tokens ++ [.endOfFile after.line] =
      middle.tokens ++ (scan (reader.source.drop middle.current)).tokens.map
        (Token.moved (newlines (reader.source.take middle.current))) := by
    rw [tokens, lastLine, scan, List.map_append, List.append_assoc]
    rfl
  refine ⟨{ after with tokens := [] }, ?_⟩
  rw [scanTokens?, reached.scanFrom?_eq, ends, ← handed]
  rfl

/-- A run that is about to begin a round goes on as a new run on the text ahead would, on lines
further down, whatever stands behind. -/
theorem scanTokens?_resumed (reached : reader.Reaches sink middle held) (fresh : Collector) :
    ∃ tokens diagnostics ended used,
      (opened (reader.source.drop middle.current)).scanTokens? fresh =
          some (tokens, ended, fresh.report diagnostics) ∧
        reader.scanTokens? sink =
          some (middle.tokens ++
              tokens.map (Token.moved (newlines (reader.source.take middle.current))), used,
            held.report (diagnostics.map
              (Diagnostic.moved (newlines (reader.source.take middle.current))))) ∧
        ((tokenPlaces reader.source).filter fun place => place.1 < middle.current).map Prod.snd =
          middle.tokens ∧
        ((tokenPlaces reader.source).filter fun place => middle.current ≤ place.1).map Prod.snd =
          tokens.map (Token.moved (newlines (reader.source.take middle.current))) := by
  obtain ⟨ended, _, anew⟩ :=
    Reader.scanTokens?_eq (opened (reader.source.drop middle.current)) fresh
  obtain ⟨used, resumed⟩ := reached.scanTokens?_eq
  obtain ⟨front, back, state⟩ := reached.exists_standsBehind
  refine ⟨_, _, ended, used, anew, resumed, ?_, ?_⟩
  · rw [state.current, filter_lt_tokenPlaces state.cut, state.tokens, List.map_filterMap]
    simp only [Placed.map_snd_token?]
  · rw [state.current, filter_le_tokenPlaces state.cut, ← state.current, ← state.text_behind,
      ← state.text_ahead, ← map_snd_tokenPlaces, List.map_map, List.map_map]
    rfl

/-- Behind a stray byte, a string over two lines and a comment. -/
theorem scanTokens?_resumed_behindComment :
    ∃ middle held, (opened (ascii "@\"a\nb\"// c\n+\"")).Reaches .empty middle held ∧
      middle.current = 10 ∧
      middle.tokens = [⟨.string, ascii "\"a\nb\"", some (.string (ascii "a\nb")), 1⟩] ∧
      ((tokenPlaces (ascii "@\"a\nb\"// c\n+\"")).filter fun place => 10 ≤ place.1).map Prod.snd =
        [⟨.symbol .plus, ascii "+", none, 3⟩, .endOfFile 3] ∧
      ∃ used, (opened (ascii "@\"a\nb\"// c\n+\"")).scanTokens? .empty =
        some ([⟨.string, ascii "\"a\nb\"", some (.string (ascii "a\nb")), 1⟩,
            ⟨.symbol .plus, ascii "+", none, 3⟩, .endOfFile 3], used,
          ⟨[.ofFault .unexpectedCharacter 1, .ofFault .unterminatedString 3]⟩) := by
  set source := ascii "@\"a\nb\"// c\n+\""
  set token : Token := ⟨.string, ascii "\"a\nb\"", some (.string (ascii "a\nb")), 1⟩
  set held : Collector := ⟨[.ofFault .unexpectedCharacter 1]⟩
  have first : (opened source).beginLexeme.scanToken? .empty =
      some (⟨source, 0, 1, 1, []⟩, held) := by
    decide +kernel
  have second : (⟨source, 0, 1, 1, []⟩ : Reader).beginLexeme.scanToken? held =
      some (⟨source, 1, 6, 2, [token]⟩, held) := by
    decide +kernel
  have third : (⟨source, 1, 6, 2, [token]⟩ : Reader).beginLexeme.scanToken? held =
      some (⟨source, 6, 10, 2, [token]⟩, held) := by
    decide +kernel
  have opening : (opened source).Reaches .empty (opened source) .empty := .start
  have reached : (opened source).Reaches .empty ⟨source, 6, 10, 2, [token]⟩ held :=
    ((opening.round (by decide) first).round (by decide) second).round (by decide) third
  have fresh : ((opened (source.drop 10)).scanTokens? .empty).map
      (fun given => (given.1, given.2.2.diagnostics)) =
        some ([⟨.symbol .plus, ascii "+", none, 2⟩, .endOfFile 2],
          [.ofFault .unterminatedString 2]) := by
    decide +kernel
  have lines : newlines (source.take 10) = 1 := by decide +kernel
  obtain ⟨tokens, diagnostics, _, used, anew, resumed, _, later⟩ :=
    scanTokens?_resumed reached .empty
  simp only [opened] at fresh anew resumed later
  rw [anew, Option.map_some, Option.some.injEq, Prod.mk.injEq] at fresh
  obtain ⟨rfl, isDiagnostics⟩ := fresh
  have same : diagnostics = [.ofFault .unterminatedString 2] := isDiagnostics
  rw [lines, same] at resumed
  rw [lines] at later
  exact ⟨_, held, reached, rfl, rfl, later, used, resumed⟩

end ScriptLexer.Reader
