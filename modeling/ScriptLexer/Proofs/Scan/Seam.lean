import Mathlib
import ScriptLexer.Proofs.Scan.Places

namespace ScriptLexer

open Byte

/-! Scripts in two parts.  A newline between them is a seam that nothing reaches over, unless
a string or a block comment is still open there.  The second part is then scanned as it
would be alone, on lines further down.
-/

def Token.moved (count : Nat) (token : Token) : Token :=
  { token with line := token.line + count }

def Diagnostic.moved (count : Nat) (diagnostic : Diagnostic) : Diagnostic :=
  { diagnostic with line := diagnostic.line + count }

/-- A place that lies behind `bytes` more bytes and `count` more lines. -/
def Placed.moved (bytes count : Nat) (placed : Placed) : Placed where
  segment := placed.segment
  offset := placed.offset + bytes
  line := placed.line + count

/-- The tokens of a scan without the one that closes the run. -/
def Scan.body (result : Scan) : List Token :=
  result.tokens.filter fun token => token.kind ≠ .endOfFile

/-- Whether a script leaves no string and no block comment open. -/
def Closes (source : Bytes) : Prop :=
  ∀ diagnostic ∈ (scan source).diagnostics,
    diagnostic.message ≠ Fault.unterminatedString.message ∧
      diagnostic.message ≠ Fault.unterminatedComment.message

instance (source : Bytes) : Decidable (Closes source) :=
  inferInstanceAs (Decidable (∀ diagnostic ∈ (scan source).diagnostics,
    diagnostic.message ≠ Fault.unterminatedString.message ∧
      diagnostic.message ≠ Fault.unterminatedComment.message))

/-! Segments in front of a newline. -/

theorem startsWith_append_newline {inClass : UInt8 → Bool} (outside : inClass newline = false)
    (rest back : Bytes) :
    startsWith inClass (rest ++ newline :: back) = startsWith inClass rest := by
  cases rest with
  | nil => exact outside
  | cons byte rest => rfl

theorem Symbol.admits_append_newline {mark : Symbol} {rest : Bytes} (admits : mark.Admits rest)
    (back : Bytes) : mark.Admits (rest ++ newline :: back) := by
  cases mark with
  | bang | equal | greater | less | slash =>
      rw [Symbol.Admits, startsWith_append_newline (by decide)]
      exact admits
  | _ => trivial

theorem Lexeme.admits_append_newline {part : Lexeme} {rest : Bytes} (admits : part.Admits rest)
    (back : Bytes) : part.Admits (rest ++ newline :: back) := by
  cases part with
  | symbol mark => exact Symbol.admits_append_newline admits back
  | word text =>
      rw [Lexeme.Admits, startsWith_append_newline (by decide)]
      exact admits
  | number whole fraction =>
      refine ⟨?_, ?_⟩
      · rw [startsWith_append_newline (by decide)]
        exact admits.1
      · intro integer isPoint
        cases rest with
        | nil => cases isPoint
        | cons byte rest =>
            rw [List.cons_append, List.tail_cons, startsWith_append_newline (by decide)]
            exact admits.2 integer isPoint
  | string body => trivial

/-- Only what is never closed can go on behind the end of a text. -/
theorem Segment.admits_append_newline {segment : Segment} {rest : Bytes}
    (admits : segment.Admits rest) (noString : segment.fault? ≠ some .unterminatedString)
    (noComment : segment.fault? ≠ some .unterminatedComment) (back : Bytes) :
    segment.Admits (rest ++ newline :: back) := by
  cases segment with
  | lineComment body =>
      right
      rcases admits with ended | ends
      · rw [ended]
        rfl
      · cases rest with
        | nil => cases ends
        | cons byte rest => exact ends
  | lexeme part => exact Lexeme.admits_append_newline admits back
  | openString body => exact absurd rfl noString
  | openComment body => exact absurd rfl noComment
  | blank byte | blockComment body | stray byte => trivial

theorem Closes.fault?_of_mem {source : Bytes} (closes : Closes source) {segment : Segment}
    (member : segment ∈ segments source) :
    segment.fault? ≠ some .unterminatedString ∧ segment.fault? ≠ some .unterminatedComment := by
  have reported {fault : Fault} (faulty : segment.fault? = some fault) :
      ∃ diagnostic ∈ (scan source).diagnostics, diagnostic.message = fault.message := by
    apply List.mem_map.mp
    rw [map_message_diagnostics]
    exact List.mem_filterMap.mpr ⟨segment, member, by rw [faulty]; rfl⟩
  refine ⟨?_, ?_⟩
  · intro faulty
    obtain ⟨diagnostic, inside, same⟩ := reported faulty
    exact (closes diagnostic inside).1 same
  · intro faulty
    obtain ⟨diagnostic, inside, same⟩ := reported faulty
    exact (closes diagnostic inside).2 same

theorem standing_append_newline {front back : List Segment} (standing : Standing front)
    (closed : ∀ segment ∈ front,
      segment.fault? ≠ some .unterminatedString ∧ segment.fault? ≠ some .unterminatedComment)
    (standingBack : Standing back) : Standing (front ++ .blank newline :: back) := by
  induction front with
  | nil => exact ⟨⟨rfl, trivial⟩, standingBack⟩
  | cons segment rest ih =>
      rw [List.forall_mem_cons] at closed
      rw [List.cons_append, Standing, List.flatMap_append, List.flatMap_cons]
      refine ⟨⟨standing.1.wellFormed, ?_⟩, ih standing.2 closed.2⟩
      exact Segment.admits_append_newline standing.1.admits closed.1.1 closed.1.2 _

theorem segments_append_newline {front : Bytes} (closes : Closes front) (back : Bytes) :
    segments (front ++ newline :: back) = segments front ++ .blank newline :: segments back := by
  refine segments_eq_iff.mpr ⟨?_, ?_⟩
  · rw [List.flatMap_append, List.flatMap_cons, flatMap_text_segments, flatMap_text_segments]
    rfl
  · exact standing_append_newline (standing_segments front) (fun _ => closes.fault?_of_mem)
      (standing_segments back)

/-! Places further down. -/

theorem placedFrom_add (bytes count offset line : Nat) (cut : List Segment) :
    placedFrom (offset + bytes) (line + count) cut =
      (placedFrom offset line cut).map (Placed.moved bytes count) := by
  induction cut generalizing offset line with
  | nil => rfl
  | cons segment rest ih =>
      rw [placedFrom, placedFrom, List.map_cons, ← ih, Nat.add_right_comm offset,
        Nat.add_right_comm line]
      rfl

theorem token?_moved (bytes count : Nat) (placed : Placed) :
    (placed.moved bytes count).token? = placed.token?.map (Token.moved count) := by
  obtain ⟨segment, offset, line⟩ := placed
  cases segment <;> rfl

theorem diagnostic?_moved (bytes count : Nat) (placed : Placed) :
    (placed.moved bytes count).diagnostic? = placed.diagnostic?.map (Diagnostic.moved count) := by
  have behind : (placed.moved bytes count).endLine = placed.endLine + count :=
    Nat.add_right_comm _ _ _
  rw [Placed.diagnostic?, behind, Placed.diagnostic?, Option.map_map]
  rfl

/-- What moves with its place can be read off the places before they are moved. -/
theorem filterMap_map_moved {α : Type} {observe : Placed → Option α} {move : α → α}
    {bytes count : Nat}
    (moves : ∀ placed : Placed, observe (placed.moved bytes count) = (observe placed).map move)
    (places : List Placed) :
    (places.map (Placed.moved bytes count)).filterMap observe =
      (places.filterMap observe).map move := by
  rw [List.filterMap_map, List.map_filterMap]
  exact List.filterMap_congr fun placed _ => moves placed

theorem placedSegments_append_newline {front : Bytes} (closes : Closes front) (back : Bytes) :
    placedSegments (front ++ newline :: back) =
      placedSegments front ++ ⟨.blank newline, front.length, lineAfter front⟩ ::
        (placedSegments back).map (Placed.moved (front.length + 1) (lineAfter front)) := by
  have line : lineAfter front + newlines (Segment.blank newline).text = 1 + lineAfter front :=
    Nat.add_comm _ _
  have offset : front.length + (Segment.blank newline).text.length = 0 + (front.length + 1) :=
    (Nat.zero_add _).symm
  rw [placedSegments, segments_append_newline closes, placedFrom_append, flatMap_text_segments,
    placedFrom, Nat.zero_add, ← lineAfter, line, offset, placedFrom_add]
  rfl

/-! The tokens of a scan are its body and the end of the file. -/

theorem kind_ne_endOfFile (part : Lexeme) : part.kind ≠ .endOfFile := by
  cases part with
  | word text =>
      rw [Lexeme.kind]
      cases Keyword.ofText? text <;> nofun
  | _ => nofun

theorem body_eq (source : Bytes) :
    (scan source).body = (placedSegments source).filterMap Placed.token? := by
  rw [Scan.body, scan, List.filter_append, List.filter_eq_self.mpr ?_]
  · exact List.append_nil _
  · intro token member
    obtain ⟨placed, _, shown⟩ := List.mem_filterMap.mp member
    rw [Placed.token?] at shown
    split at shown
    · rename_i part _
      rw [← Option.some.inj shown]
      exact decide_eq_true (kind_ne_endOfFile part)
    · cases shown

theorem tokens_eq_body (source : Bytes) :
    (scan source).tokens = (scan source).body ++ [.endOfFile (lineAfter source)] := by
  rw [body_eq, ← lineBehind_segments]
  rfl

theorem diagnostics_eq_filterMap (source : Bytes) :
    (scan source).diagnostics = (placedSegments source).filterMap Placed.diagnostic? := rfl

theorem lineAfter_append_newline (front back : Bytes) :
    lineAfter (front ++ newline :: back) = lineAfter back + lineAfter front := by
  have line : newlines (newline :: back) = lineAfter back := by
    rw [newlines, List.count_cons_self, lineAfter, Nat.add_comm, newlines]
  rw [lineAfter_append, line, Nat.add_comm]

theorem body_append_newline {front : Bytes} (closes : Closes front) (back : Bytes) :
    (scan (front ++ newline :: back)).body =
      (scan front).body ++ (scan back).body.map (Token.moved (lineAfter front)) := by
  rw [body_eq, placedSegments_append_newline closes, List.filterMap_append, List.filterMap_cons,
    filterMap_map_moved (token?_moved _ _), ← body_eq, ← body_eq]
  rfl

theorem diagnostics_append_newline {front : Bytes} (closes : Closes front) (back : Bytes) :
    (scan (front ++ newline :: back)).diagnostics =
      (scan front).diagnostics ++
        (scan back).diagnostics.map (Diagnostic.moved (lineAfter front)) := by
  rw [diagnostics_eq_filterMap, placedSegments_append_newline closes, List.filterMap_append,
    List.filterMap_cons, filterMap_map_moved (diagnostic?_moved _ _)]
  rfl

/-- A script that closes what it opens, a newline and another script are scanned one
behind the other. -/
theorem scan_append_newline (front back : Bytes) (closes : Closes front) :
    (scan (front ++ newline :: back)).tokens =
        (scan front).body ++ (scan back).tokens.map (Token.moved (1 + newlines front)) ∧
      (scan (front ++ newline :: back)).diagnostics =
        (scan front).diagnostics ++
          (scan back).diagnostics.map (Diagnostic.moved (1 + newlines front)) := by
  refine ⟨?_, diagnostics_append_newline closes back⟩
  rw [tokens_eq_body, body_append_newline closes, lineAfter_append_newline, tokens_eq_body back,
    List.map_append, List.append_assoc]
  rfl

/-- Two lines in front, the second one with a point that begins no fraction and a comment,
and behind them a string that stays open. -/
theorem scan_append_newline_open_string :
    Closes (ascii "@\n12. // x") ∧
      (scan (ascii "@\n12. // x" ++ newline :: ascii "\"y\n")).tokens =
        [⟨.number, ascii "12", some (.number (.ofDecimal ⟨12, 0⟩)), 2⟩,
          ⟨.symbol .dot, ascii ".", none, 2⟩, .endOfFile 4] ∧
      (scan (ascii "@\n12. // x" ++ newline :: ascii "\"y\n")).diagnostics =
        [.ofFault .unexpectedCharacter 1, .ofFault .unterminatedString 4] := by
  have closes : Closes (ascii "@\n12. // x") := by decide +kernel
  obtain ⟨tokens, diagnostics⟩ :=
    scan_append_newline (ascii "@\n12. // x") (ascii "\"y\n") closes
  refine ⟨closes, ?_, ?_⟩
  · rw [tokens]
    decide +kernel
  · rw [diagnostics]
    decide +kernel

end ScriptLexer
