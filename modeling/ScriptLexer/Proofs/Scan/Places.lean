import Mathlib
import ScriptLexer.Proofs.Segmentation
import ScriptLexer.Scan

namespace ScriptLexer

/-! What a scan reads off the segments of a script, and where it finds them. -/

def Segment.lexeme? : Segment → Option Lexeme
  | .lexeme part => some part
  | _ => none

/-- The lexemes of a script in the order of the text. -/
def lexemes (source : Bytes) : List Lexeme :=
  (segments source).filterMap Segment.lexeme?

variable {α : Type} {source : Bytes}

/-- What does not look at a place can be seen on the segments alone. -/
theorem filterMap_placedFrom (ofSegment : Segment → Option α) {observe : Placed → Option α}
    (same : ∀ placed, observe placed = ofSegment placed.segment) (offset line : Nat)
    (cut : List Segment) :
    (placedFrom offset line cut).filterMap observe = cut.filterMap ofSegment := by
  have observed : observe = ofSegment ∘ Placed.segment := funext same
  rw [observed, ← List.filterMap_map, map_segment_placedFrom]

theorem filterMap_placedFrom_map_blank {observe : Placed → Option α}
    (noBlank : ∀ byte offset line, observe ⟨.blank byte, offset, line⟩ = none)
    (offset line : Nat) (bytes : Bytes) :
    (placedFrom offset line (bytes.map .blank)).filterMap observe = [] := by
  induction bytes generalizing offset line with
  | nil => rfl
  | cons byte bytes ih =>
      rw [List.map_cons, placedFrom, List.filterMap_cons, noBlank]
      exact ih _ _

/-- What does not look at the line of a token can be seen on the lexemes alone. -/
theorem map_tokens {observe : Token → α} {ofLexeme : Lexeme → α}
    (same : ∀ lexeme line, observe (Token.ofLexeme lexeme line) = ofLexeme lexeme)
    (source : Bytes) :
    (scan source).tokens.map observe =
      (lexemes source).map ofLexeme ++ [observe (.endOfFile (lineBehind 1 (segments source)))] := by
  have each (placed : Placed) :
      placed.token?.map observe = placed.segment.lexeme?.map ofLexeme := by
    unfold Placed.token? Segment.lexeme?
    cases placed.segment with
    | lexeme part => exact congrArg some (same part placed.line)
    | _ => rfl
  rw [scan, List.map_append, List.map_filterMap, placedSegments,
    filterMap_placedFrom (fun segment => segment.lexeme?.map ofLexeme) each, lexemes,
    List.map_filterMap]
  rfl

theorem map_message_diagnostics (source : Bytes) :
    (scan source).diagnostics.map Diagnostic.message =
      (segments source).filterMap fun segment => segment.fault?.map Fault.message := by
  have each (placed : Placed) :
      placed.diagnostic?.map Diagnostic.message = placed.segment.fault?.map Fault.message := by
    rw [Placed.diagnostic?, Option.map_map]
    rfl
  rw [scan, List.map_filterMap, placedSegments,
    filterMap_placedFrom (fun segment => segment.fault?.map Fault.message) each]

/-- The bytes of segments that have been given a place. -/
def placedText (places : List Placed) : Bytes :=
  places.flatMap fun placed => placed.segment.text

theorem length_placedFrom (offset line : Nat) (cut : List Segment) :
    (placedFrom offset line cut).length = cut.length := by
  rw [← List.length_map Placed.segment, map_segment_placedFrom]

theorem flatMap_text_map_segment (places : List Placed) :
    (places.map Placed.segment).flatMap Segment.text = placedText places := by
  rw [List.flatMap_map]
  rfl

theorem placedFrom_split {offset line : Nat} {cut : List Segment} {before after : List Placed}
    {placed : Placed} (places : placedFrom offset line cut = before ++ placed :: after) :
    placed.offset = offset + (placedText before).length ∧
      placed.line = line + newlines (placedText before) := by
  have segmentsOf := map_segment_placedFrom offset line cut
  rw [places, List.map_append, List.map_cons] at segmentsOf
  rw [← segmentsOf, placedFrom_append] at places
  have sameLength : (placedFrom offset line (before.map Placed.segment)).length = before.length := by
    rw [length_placedFrom, List.length_map]
  have here := (List.append_inj places sameLength).2
  rw [placedFrom, flatMap_text_map_segment] at here
  rw [← (List.cons.inj here).1]
  exact ⟨rfl, rfl⟩

theorem mem_segments_of_mem_placedSegments {placed : Placed}
    (member : placed ∈ placedSegments source) : placed.segment ∈ segments source := by
  rw [← map_segment_placedFrom 0 1 (segments source)]
  exact List.mem_map_of_mem member

theorem segments_split {before after : List Placed} {placed : Placed}
    (places : placedSegments source = before ++ placed :: after) :
    segments source =
      before.map Placed.segment ++ placed.segment :: after.map Placed.segment := by
  have segmentsOf := map_segment_placedFrom 0 1 (segments source)
  rw [placedSegments] at places
  rw [places, List.map_append, List.map_cons] at segmentsOf
  exact segmentsOf.symm

/-- A placed segment is found at its offset, on its line, and stands before what
comes behind it. -/
theorem placedSegments_split {before after : List Placed} {placed : Placed}
    (places : placedSegments source = before ++ placed :: after) :
    source.take placed.offset = placedText before ∧
      source.drop placed.offset = placed.segment.text ++ placedText after ∧
      placed.line = lineAfter (source.take placed.offset) ∧
      placed.segment.Stands (placedText after) := by
  have split := segments_split places
  have whole := flatMap_text_segments source
  have standing := standing_segments source
  rw [split] at whole standing
  rw [List.flatMap_append, List.flatMap_cons, flatMap_text_map_segment,
    flatMap_text_map_segment] at whole
  obtain ⟨offset, line⟩ := placedFrom_split places
  rw [Nat.zero_add] at offset
  have front : source.take placed.offset = placedText before := by
    rw [← whole, offset, List.take_left]
  refine ⟨front, ?_, ?_, ?_⟩
  · rw [← whole, offset, List.drop_left]
  · rw [front, line, lineAfter]
  · have stands := standing.stands_of_append
    rwa [flatMap_text_map_segment] at stands

theorem lineBehind_eq (line : Nat) (cut : List Segment) :
    lineBehind line cut = line + newlines (cut.flatMap Segment.text) := by
  induction cut generalizing line with
  | nil => rfl
  | cons segment rest ih =>
      rw [lineBehind, ih, List.flatMap_cons, newlines_append, Nat.add_assoc]

/-- The counter has seen every newline of the script when it comes to its end. -/
theorem lineBehind_segments (source : Bytes) :
    lineBehind 1 (segments source) = lineAfter source := by
  rw [lineBehind_eq, flatMap_text_segments, lineAfter]

end ScriptLexer
