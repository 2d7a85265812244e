import Mathlib
import ScriptLexer.Proofs.Scan.Lines
import ScriptLexer.Proofs.Scan.Spacing

namespace ScriptLexer

open Byte

/-! Blanking.  Comments, stray bytes and what is never closed are written over with
spaces, newlines apart.  A scan then gives the same tokens, and has nothing to report.
-/

/-- Whether the byte at an offset is part of the lexeme of a token. -/
def insideToken (places : List Placed) (offset : Nat) : Bool :=
  places.any fun placed =>
    placed.token?.any fun token =>
      decide (placed.offset ≤ offset ∧ offset < placed.offset + token.lexeme.length)

def blankOut (byte : UInt8) : UInt8 :=
  if byte = newline then newline else space

/-- A script in which every byte outside the lexemes of its tokens is blanked out. -/
def blanked (source : Bytes) : Bytes :=
  source.mapIdx fun offset byte =>
    if insideToken (placedSegments source) offset then byte else blankOut byte

/-- The segments of a segment that has been blanked out. -/
def Segment.blankedCut : Segment → List Segment
  | .lexeme part => [.lexeme part]
  | other => (other.text.map blankOut).map .blank

def blankedCut (cut : List Segment) : List Segment :=
  cut.flatMap Segment.blankedCut

theorem isBlank_blankOut (byte : UInt8) : isBlank (blankOut byte) = true := by
  unfold blankOut
  split <;> rfl

theorem isBlank_of_mem_map_blankOut {text : Bytes} :
    ∀ byte ∈ text.map blankOut, isBlank byte = true := by
  intro byte member
  obtain ⟨original, _, rfl⟩ := List.mem_map.mp member
  exact isBlank_blankOut original

theorem newlines_map_blankOut (text : Bytes) : newlines (text.map blankOut) = newlines text := by
  have same (byte : UInt8) : (blankOut byte == newline) = (byte == newline) := by
    have different : (space == newline) = false := rfl
    by_cases isNewline : byte = newline
    · simp [blankOut, isNewline]
    · simp [blankOut, isNewline, different]
  rw [newlines, List.count_eq_countP, List.countP_map, newlines, List.count_eq_countP]
  exact List.countP_congr fun byte _ => by rw [Function.comp_apply, same]

namespace Segment

variable {segment : Segment}

theorem lexeme_or_none (segment : Segment) :
    (∃ part, segment = .lexeme part) ∨ segment.lexeme? = none := by
  cases segment with
  | lexeme part => exact .inl ⟨part, rfl⟩
  | _ => exact .inr rfl

theorem blankedCut_of_none (noLexeme : segment.lexeme? = none) :
    segment.blankedCut = (segment.text.map blankOut).map .blank := by
  cases segment with
  | lexeme part => cases noLexeme
  | _ => rfl

theorem token?_of_none (noLexeme : segment.lexeme? = none) (offset line : Nat) :
    Placed.token? ⟨segment, offset, line⟩ = none := by
  cases segment with
  | lexeme part => cases noLexeme
  | _ => rfl

theorem text_blankedCut_of_lexeme (part : Lexeme) :
    (Segment.lexeme part).blankedCut.flatMap text = part.text :=
  List.flatMap_singleton text _

theorem text_blankedCut_of_none (noLexeme : segment.lexeme? = none) :
    segment.blankedCut.flatMap text = segment.text.map blankOut := by
  rw [blankedCut_of_none noLexeme, flatMap_text_map_blank]

theorem length_text_blankedCut (segment : Segment) :
    (segment.blankedCut.flatMap text).length = segment.text.length := by
  obtain ⟨part, rfl⟩ | noLexeme := segment.lexeme_or_none
  · rw [text_blankedCut_of_lexeme, text]
  · rw [text_blankedCut_of_none noLexeme, List.length_map]

theorem newlines_text_blankedCut (segment : Segment) :
    newlines (segment.blankedCut.flatMap text) = newlines segment.text := by
  obtain ⟨part, rfl⟩ | noLexeme := segment.lexeme_or_none
  · rw [text_blankedCut_of_lexeme, text]
  · rw [text_blankedCut_of_none noLexeme, newlines_map_blankOut]

end Segment

/-! The text of the blanked segments is the script, blanked byte by byte. -/

variable {offset line index : Nat} {segment : Segment} {rest : List Segment}

theorem insideToken_of_lt (inside : index < segment.text.length) :
    insideToken (placedFrom offset line (segment :: rest)) (offset + index) =
      segment.lexeme?.isSome := by
  have behind : insideToken (placedFrom (offset + segment.text.length)
      (line + newlines segment.text) rest) (offset + index) = false := by
    rw [insideToken, List.any_eq_false]
    intro placed member
    have later := offset_le_of_mem_placedFrom member
    cases placed.token? with
    | none => simp
    | some token =>
        simp only [Option.any_some, decide_eq_true_eq]
        omega
  rw [insideToken] at behind
  rw [placedFrom, insideToken, List.any_cons, behind, Bool.or_false]
  obtain ⟨part, rfl⟩ | noLexeme := segment.lexeme_or_none
  · have within : index < part.text.length := inside
    simp [Placed.token?, Token.ofLexeme, Segment.lexeme?, within]
  · rw [Segment.token?_of_none noLexeme, noLexeme]
    rfl

theorem insideToken_of_le :
    insideToken (placedFrom offset line (segment :: rest))
        (offset + (index + segment.text.length)) =
      insideToken (placedFrom (offset + segment.text.length) (line + newlines segment.text) rest)
        (offset + segment.text.length + index) := by
  have same : offset + (index + segment.text.length) = offset + segment.text.length + index := by
    omega
  rw [placedFrom, insideToken, List.any_cons, ← insideToken, same]
  obtain ⟨part, rfl⟩ | noLexeme := segment.lexeme_or_none
  · simp [Placed.token?, Token.ofLexeme, Segment.text]
  · rw [Segment.token?_of_none noLexeme]
    rfl

theorem mapIdx_insideToken (offset line : Nat) (cut : List Segment) :
    ((cut.flatMap Segment.text).mapIdx fun index byte =>
        if insideToken (placedFrom offset line cut) (offset + index) then byte
        else blankOut byte) =
      (blankedCut cut).flatMap Segment.text := by
  induction cut generalizing offset line with
  | nil => rfl
  | cons segment rest ih =>
      have front : (segment.text.mapIdx fun index byte =>
          if insideToken (placedFrom offset line (segment :: rest)) (offset + index) then byte
          else blankOut byte) = segment.blankedCut.flatMap Segment.text := by
        apply List.ext_getElem
        · rw [List.length_mapIdx, Segment.length_text_blankedCut]
        intro index inside _
        rw [List.length_mapIdx] at inside
        rw [List.getElem_mapIdx, insideToken_of_lt inside]
        obtain ⟨part, rfl⟩ | noLexeme := segment.lexeme_or_none
        · simp [Segment.lexeme?, Segment.text_blankedCut_of_lexeme, Segment.text]
        · simp [noLexeme, Segment.text_blankedCut_of_none noLexeme]
      rw [List.flatMap_cons, List.mapIdx_append, front, blankedCut, List.flatMap_cons,
        List.flatMap_append, ← blankedCut,
        ← ih (offset + segment.text.length) (line + newlines segment.text)]
      simp only [insideToken_of_le]

theorem blanked_eq (source : Bytes) :
    blanked source = (blankedCut (segments source)).flatMap Segment.text := by
  have whole := mapIdx_insideToken 0 1 (segments source)
  simp only [Nat.zero_add, flatMap_text_segments] at whole
  exact whole

example : blanked (ascii "12/* */.5@// x\n\"y") = ascii "12     .5     \n  " := by
  decide +kernel

/-! Blanked segments stand.  A blank ends every lexeme, and two lexemes that touch each
other still do. -/

theorem blankedCut_cons (segment : Segment) (rest : List Segment) :
    blankedCut (segment :: rest) = segment.blankedCut ++ blankedCut rest :=
  List.flatMap_cons

theorem text_blankedCut_lexeme_cons (part : Lexeme) (rest : List Segment) :
    (blankedCut (.lexeme part :: rest)).flatMap Segment.text =
      part.text ++ (blankedCut rest).flatMap Segment.text := by
  rw [blankedCut_cons, List.flatMap_append, Segment.text_blankedCut_of_lexeme]

theorem breaks_blankedCut (wellFormed : segment.WellFormed) (noLexeme : segment.lexeme? = none)
    (rest : List Segment) : Breaks ((blankedCut (segment :: rest)).flatMap Segment.text) := by
  obtain ⟨first, tail, starts⟩ :=
    List.exists_cons_of_ne_nil (Segment.text_ne_nil_of_wellFormed wellFormed)
  right
  rw [blankedCut_cons, List.flatMap_append, Segment.text_blankedCut_of_none noLexeme,
    starts, List.map_cons, List.cons_append, startsWith_cons, isBlank_blankOut]

variable {cut : List Segment}

/-- Blanks put no digit behind a point. -/
theorem startsWith_isDigit_blankedCut (standing : Standing cut)
    (noDigit : startsWith isDigit (cut.flatMap Segment.text) = false) :
    startsWith isDigit ((blankedCut cut).flatMap Segment.text) = false := by
  cases cut with
  | nil => rfl
  | cons segment rest =>
      have wellFormed := standing.1.wellFormed
      obtain ⟨part, rfl⟩ | noLexeme := segment.lexeme_or_none
      · rw [List.flatMap_cons, Segment.text, Lexeme.startsWith_isDigit wellFormed] at noDigit
        rw [text_blankedCut_lexeme_cons, Lexeme.startsWith_isDigit wellFormed, noDigit]
      · exact (breaks_blankedCut wellFormed noLexeme rest).startsWith_eq_false rfl rfl rfl rfl

theorem admits_blankedCut {part : Lexeme} (standing : Standing cut)
    (admits : part.Admits (cut.flatMap Segment.text)) :
    part.Admits ((blankedCut cut).flatMap Segment.text) := by
  cases cut with
  | nil => exact admits
  | cons segment rest =>
      have wellFormed := standing.1.wellFormed
      obtain ⟨next, rfl⟩ | noLexeme := segment.lexeme_or_none
      · rw [List.flatMap_cons, Segment.text, Lexeme.admits_text_iff part wellFormed] at admits
        rw [text_blankedCut_lexeme_cons, Lexeme.admits_text_iff part wellFormed]
        refine ⟨admits.1, ?_⟩
        intro integer isDot
        exact startsWith_isDigit_blankedCut standing.2 (admits.2 integer isDot)
      · exact part.admits_of_breaks (breaks_blankedCut wellFormed noLexeme rest)

theorem standing_blankedCut (standing : Standing cut) : Standing (blankedCut cut) := by
  induction cut with
  | nil => exact standing
  | cons segment rest ih =>
      rw [blankedCut_cons]
      obtain ⟨part, rfl⟩ | noLexeme := segment.lexeme_or_none
      · exact ⟨⟨standing.1.wellFormed, admits_blankedCut standing.2 standing.1.admits⟩,
          ih standing.2⟩
      · rw [Segment.blankedCut_of_none noLexeme,
          standing_map_blank_append isBlank_of_mem_map_blankOut]
        exact ih standing.2

theorem segments_blanked (source : Bytes) :
    segments (blanked source) = blankedCut (segments source) :=
  segments_eq_iff.mpr ⟨(blanked_eq source).symm, standing_blankedCut (standing_segments source)⟩

/-! What a scan reads off the blanked segments. -/

/-- Lexemes keep their places, so that their tokens keep their lines. -/
theorem filterMap_token?_blankedCut (offset line : Nat) (cut : List Segment) :
    (placedFrom offset line (blankedCut cut)).filterMap Placed.token? =
      (placedFrom offset line cut).filterMap Placed.token? := by
  induction cut generalizing offset line with
  | nil => rfl
  | cons segment rest ih =>
      rw [blankedCut_cons, placedFrom_append, List.filterMap_append,
        Segment.length_text_blankedCut, Segment.newlines_text_blankedCut, ih, placedFrom,
        List.filterMap_cons]
      obtain ⟨part, rfl⟩ | noLexeme := segment.lexeme_or_none
      · rfl
      · rw [Segment.blankedCut_of_none noLexeme,
          filterMap_placedFrom_map_blank (fun _ _ _ => rfl), Segment.token?_of_none noLexeme,
          List.nil_append]

theorem lineBehind_blankedCut (line : Nat) (cut : List Segment) :
    lineBehind line (blankedCut cut) = lineBehind line cut := by
  induction cut generalizing line with
  | nil => rfl
  | cons segment rest ih =>
      rw [lineBehind, ← ih, blankedCut_cons, lineBehind_eq, lineBehind_eq, List.flatMap_append,
        newlines_append, Segment.newlines_text_blankedCut, Nat.add_assoc]

theorem fault?_of_mem_blankedCut (member : segment ∈ blankedCut cut) : segment.fault? = none := by
  obtain ⟨original, _, inside⟩ := List.mem_flatMap.mp member
  obtain ⟨part, rfl⟩ | noLexeme := original.lexeme_or_none
  · rw [List.mem_singleton.mp inside]
    rfl
  · rw [Segment.blankedCut_of_none noLexeme] at inside
    obtain ⟨byte, _, rfl⟩ := List.mem_map.mp inside
    rfl

/-- What is discarded may as well be blank: the tokens stay the same, lines included, and
no fault is left. -/
theorem scan_blanked (source : Bytes) : scan (blanked source) = ⟨(scan source).tokens, []⟩ := by
  have tokens : (scan (blanked source)).tokens = (scan source).tokens := by
    rw [scan, placedSegments, segments_blanked, filterMap_token?_blankedCut, lineBehind_blankedCut]
    rfl
  have diagnostics : (scan (blanked source)).diagnostics = [] := by
    apply List.map_eq_nil_iff.mp
    rw [map_message_diagnostics, segments_blanked, List.filterMap_eq_nil_iff]
    intro segment member
    rw [fault?_of_mem_blankedCut member]
    rfl
  rw [← tokens, ← diagnostics]

end ScriptLexer
