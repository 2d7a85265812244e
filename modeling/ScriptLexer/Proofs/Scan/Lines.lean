import Mathlib
import ScriptLexer.Proofs.Scan.Places

namespace ScriptLexer

open Byte

/-! Lines.  The scan carries one counter from segment to segment.  Wherever it is
read, it has counted the newlines before that place, each of them once.
-/

variable {source : Bytes} {placed : Placed}

theorem Segment.exists_stray_of_fault? {segment : Segment}
    (faulty : segment.fault? = some .unexpectedCharacter) : ∃ byte, segment = .stray byte := by
  cases segment with
  | stray byte => exact ⟨byte, rfl⟩
  | _ => cases faulty

theorem Fault.message_ne_unexpected {fault : Fault} (isOpen : fault ≠ .unexpectedCharacter) :
    fault.message ≠ Fault.unexpectedCharacter.message := by
  cases fault with
  | unexpectedCharacter => exact absurd rfl isOpen
  | unterminatedString | unterminatedComment => decide +kernel

/-- The line of a segment's first byte, counted in the script. -/
def countedLine (source : Bytes) (placed : Placed) : Nat :=
  lineAfter (source.take placed.offset)

theorem line_eq_countedLine (member : placed ∈ placedSegments source) :
    placed.line = countedLine source placed := by
  obtain ⟨before, after, places⟩ := List.append_of_mem member
  obtain ⟨_, _, line, _⟩ := placedSegments_split places
  exact line

theorem endLine_of_stray {byte : UInt8} (member : placed ∈ placedSegments source)
    (isStray : placed.segment = .stray byte) : placed.endLine = countedLine source placed := by
  obtain ⟨before, after, places⟩ := List.append_of_mem member
  obtain ⟨_, _, line, stands⟩ := placedSegments_split places
  rw [isStray] at stands
  have noNewline : newlines placed.segment.text = 0 := by
    rw [isStray, newlines_eq_zero_iff]
    intro newlineInside
    exact Segment.ne_newline_of_stray stands.wellFormed (List.mem_singleton.mp newlineInside).symm
  rw [Placed.endLine, noNewline, Nat.add_zero, line]
  rfl

/-- The rest of the script begins on the line behind the segment. -/
theorem endLine_add_newlines {before after : List Placed}
    (places : placedSegments source = before ++ placed :: after) :
    placed.endLine + newlines (placedText after) = lineAfter source := by
  obtain ⟨_, back, line, _⟩ := placedSegments_split places
  have whole := List.take_append_drop placed.offset source
  calc placed.endLine + newlines (placedText after)
      = lineAfter (source.take placed.offset) + newlines (source.drop placed.offset) := by
        rw [Placed.endLine, line, back, newlines_append, Nat.add_assoc]
    _ = lineAfter source := by rw [← lineAfter_append, whole]

theorem endLine_le (member : placed ∈ placedSegments source) :
    placed.endLine ≤ lineAfter source := by
  obtain ⟨before, after, places⟩ := List.append_of_mem member
  have whole := endLine_add_newlines places
  omega

theorem endLine_of_open {fault : Fault} (member : placed ∈ placedSegments source)
    (faulty : placed.segment.fault? = some fault) (isOpen : fault ≠ .unexpectedCharacter) :
    placed.endLine = lineAfter source := by
  obtain ⟨before, after, places⟩ := List.append_of_mem member
  obtain ⟨_, _, _, stands⟩ := placedSegments_split places
  have ended : placedText after = [] := by
    cases shape : placed.segment with
    | openString body => exact (shape ▸ stands).admits
    | openComment body => exact (shape ▸ stands).admits
    | stray byte =>
        rw [shape] at faulty
        exact absurd (Option.some.inj faulty).symm isOpen
    | _ =>
        rw [shape] at faulty
        cases faulty
  have whole := endLine_add_newlines places
  rw [ended] at whole
  exact whole

theorem line_le_of_mem_placedFrom {offset line : Nat} {cut : List Segment}
    (member : placed ∈ placedFrom offset line cut) : line ≤ placed.line := by
  obtain ⟨before, after, places⟩ := List.append_of_mem member
  rw [(placedFrom_split places).2]
  exact Nat.le_add_right _ _

theorem offset_le_of_mem_placedFrom {offset line : Nat} {cut : List Segment}
    (member : placed ∈ placedFrom offset line cut) : offset ≤ placed.offset := by
  obtain ⟨before, after, places⟩ := List.append_of_mem member
  rw [(placedFrom_split places).1]
  exact Nat.le_add_right _ _

/-- No segment begins before the line that those in front of it have reached. -/
theorem pairwise_placedFrom (offset line : Nat) (cut : List Segment) :
    (placedFrom offset line cut).Pairwise fun first second => first.endLine ≤ second.line := by
  induction cut generalizing offset line with
  | nil => exact .nil
  | cons segment rest ih =>
      apply List.pairwise_cons.mpr
      refine ⟨?_, ih _ _⟩
      intro later member
      exact line_le_of_mem_placedFrom member

theorem tokens_eq (source : Bytes) :
    (scan source).tokens =
      ((placedSegments source).filterMap fun placed =>
        placed.segment.lexeme?.map fun lexeme =>
          Token.ofLexeme lexeme (countedLine source placed)) ++
        [.endOfFile (lineAfter source)] := by
  have each : (placedSegments source).filterMap Placed.token? =
      (placedSegments source).filterMap fun placed =>
        placed.segment.lexeme?.map fun lexeme =>
          Token.ofLexeme lexeme (countedLine source placed) := by
    apply List.filterMap_congr
    intro placed member
    rw [← line_eq_countedLine member, Placed.token?]
    cases placed.segment <;> rfl
  rw [← each, ← lineBehind_segments]
  rfl

theorem diagnostics_eq (source : Bytes) :
    (scan source).diagnostics =
      (placedSegments source).filterMap fun placed =>
        placed.segment.fault?.map fun fault =>
          Diagnostic.ofFault fault
            (if fault = .unexpectedCharacter then countedLine source placed
              else lineAfter source) := by
  apply List.filterMap_congr
  intro placed member
  rw [Placed.diagnostic?]
  cases faulty : placed.segment.fault? with
  | none => rfl
  | some fault =>
      by_cases unexpected : fault = .unexpectedCharacter
      · subst unexpected
        obtain ⟨byte, isStray⟩ := Segment.exists_stray_of_fault? faulty
        rw [Option.map_some, endLine_of_stray member isStray, Option.map_some, if_pos rfl]
      · rw [Option.map_some, endLine_of_open member faulty unexpected, Option.map_some,
          if_neg unexpected]

theorem line_of_token? {token : Token} (shown : placed.token? = some token) :
    token.line = placed.line := by
  unfold Placed.token? at shown
  split at shown
  · rw [← Option.some.inj shown]
    rfl
  · cases shown

theorem lexeme_of_token? {token : Token} (shown : placed.token? = some token) :
    token.lexeme = placed.segment.text := by
  obtain ⟨segment, offset, line⟩ := placed
  cases segment with
  | lexeme part =>
      rw [← Option.some.inj shown]
      rfl
  | _ => cases shown

theorem line_of_diagnostic? {diagnostic : Diagnostic}
    (shown : placed.diagnostic? = some diagnostic) : diagnostic.line = placed.endLine := by
  obtain ⟨fault, _, rfl⟩ := Option.map_eq_some_iff.mp shown
  rfl

theorem token_line_le {token : Token} (member : token ∈ (scan source).tokens) :
    token.line ≤ lineAfter source := by
  rcases List.mem_append.mp member with inside | last
  · obtain ⟨placed, placedMember, shown⟩ := List.mem_filterMap.mp inside
    rw [line_of_token? shown]
    exact Nat.le_trans (Nat.le_add_right _ _) (endLine_le placedMember)
  · rw [List.mem_singleton.mp last, lineBehind_segments]
    exact Nat.le_refl _

theorem pairwise_token_lines (source : Bytes) :
    ((scan source).tokens.map Token.line).Pairwise (· ≤ ·) := by
  rw [List.pairwise_map, scan, lineBehind_segments, List.pairwise_append, List.pairwise_filterMap]
  refine ⟨?_, List.pairwise_singleton _ _, ?_⟩
  · apply (pairwise_placedFrom 0 1 (segments source)).imp
    intro first second ordered token shown other otherShown
    rw [line_of_token? shown, line_of_token? otherShown]
    exact Nat.le_trans (Nat.le_add_right _ _) ordered
  · intro token member last isLast
    rw [List.mem_singleton.mp isLast]
    exact token_line_le (List.mem_append_left _ member)

theorem pairwise_diagnostic_lines (source : Bytes) :
    ((scan source).diagnostics.map Diagnostic.line).Pairwise (· ≤ ·) := by
  rw [List.pairwise_map, scan, List.pairwise_filterMap]
  apply (pairwise_placedFrom 0 1 (segments source)).imp
  intro first second ordered diagnostic shown other otherShown
  rw [line_of_diagnostic? shown, line_of_diagnostic? otherShown]
  exact Nat.le_trans ordered (Nat.le_add_right _ _)

theorem diagnostic_line_le {diagnostic : Diagnostic}
    (member : diagnostic ∈ (scan source).diagnostics) :
    diagnostic.line ≤ lineAfter source := by
  obtain ⟨placed, placedMember, shown⟩ := List.mem_filterMap.mp member
  rw [line_of_diagnostic? shown]
  exact endLine_le placedMember

theorem one_le_diagnostic_line {diagnostic : Diagnostic}
    (member : diagnostic ∈ (scan source).diagnostics) : 1 ≤ diagnostic.line := by
  obtain ⟨placed, placedMember, shown⟩ := List.mem_filterMap.mp member
  rw [line_of_diagnostic? shown]
  exact Nat.le_trans (line_le_of_mem_placedFrom placedMember) (Nat.le_add_right _ _)

theorem lineAfter_eq_sum (source : Bytes) :
    lineAfter source =
      1 + ((placedSegments source).map fun placed => newlines placed.segment.text).sum := by
  have whole : placedText (placedSegments source) = source := by
    rw [← flatMap_text_map_segment, placedSegments, map_segment_placedFrom, flatMap_text_segments]
  have counted := congrArg newlines whole
  rw [newlines, placedText, List.count_flatMap] at counted
  rw [lineAfter, ← counted]
  rfl

/-- Every token has the line of its first byte, every fault the line on which it is
known, and the end of the file the line behind the last newline.  The placed segments
are all of the script, so that each newline is counted once. -/
theorem scan_lines (source : Bytes) :
    (∀ before placed after, placedSegments source = before ++ placed :: after →
        source.take placed.offset = placedText before ∧
          source.drop placed.offset = placed.segment.text ++ placedText after) ∧
      (scan source).tokens =
        ((placedSegments source).filterMap fun placed =>
          placed.segment.lexeme?.map fun lexeme =>
            Token.ofLexeme lexeme (lineAfter (source.take placed.offset))) ++
          [.endOfFile (lineAfter source)] ∧
      (scan source).diagnostics =
        ((placedSegments source).filterMap fun placed =>
          placed.segment.fault?.map fun fault =>
            Diagnostic.ofFault fault
              (if fault = .unexpectedCharacter then lineAfter (source.take placed.offset)
                else lineAfter source)) ∧
      lineAfter source =
        1 + ((placedSegments source).map fun placed => newlines placed.segment.text).sum ∧
      ((scan source).tokens.map Token.line).Pairwise (· ≤ ·) ∧
      ((scan source).diagnostics.map Diagnostic.line).Pairwise (· ≤ ·) ∧
      (∀ token ∈ (scan source).tokens, token.line ≤ lineAfter source) ∧
      ∀ diagnostic ∈ (scan source).diagnostics, diagnostic.line ≤ lineAfter source := by
  refine ⟨?_, tokens_eq source, diagnostics_eq source, lineAfter_eq_sum source,
    pairwise_token_lines source, pairwise_diagnostic_lines source, fun _ => token_line_le,
    fun _ => diagnostic_line_le⟩
  intro before placed after places
  obtain ⟨front, back, _, _⟩ := placedSegments_split places
  exact ⟨front, back⟩

end ScriptLexer
