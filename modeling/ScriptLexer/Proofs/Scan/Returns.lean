import Mathlib
import ScriptLexer.Proofs.Scan.Seam
import ScriptLexer.Proofs.Scan.Spacing
import ScriptLexer.Proofs.Text.Returns

namespace ScriptLexer

open Byte

/-! Scripts with the other line ends.  Strings take up the returns in front of their
newlines, so does a line comment the one that ends its line, and everywhere else a return is
a blank.
-/

def Literal.withReturns : Literal → Literal
  | .string value => .string (ScriptLexer.withReturns value)
  | .number value => .number value

/-- A token with the other line ends in its lexeme and in the value of a string. -/
def Token.withReturns (token : Token) : Token :=
  { token with
    lexeme := ScriptLexer.withReturns token.lexeme
    literal := token.literal.map Literal.withReturns }

def Lexeme.withReturns : Lexeme → Lexeme
  | .string body => .string (ScriptLexer.withReturns body)
  | other => other

def Segment.withReturns : Segment → Segment
  | .blockComment body => .blockComment (ScriptLexer.withReturns body)
  | .lexeme part => .lexeme part.withReturns
  | .openString body => .openString (ScriptLexer.withReturns body)
  | .openComment body => .openComment (ScriptLexer.withReturns body)
  | other => other

/-- The segments of a script with the other line ends.  What stands behind a line comment
is the newline that ends it. -/
def returnedCut : List Segment → List Segment
  | .lineComment body :: .blank byte :: rest =>
      .lineComment (body ++ [carriageReturn]) :: .blank byte :: returnedCut rest
  | .blank byte :: rest => (withReturns [byte]).map .blank ++ returnedCut rest
  | segment :: rest => segment.withReturns :: returnedCut rest
  | [] => []

namespace Lexeme

variable {part : Lexeme}

theorem withReturns_eq_self (unbroken : newline ∉ part.text) : part.withReturns = part := by
  cases part with
  | string body =>
      have unbrokenBody : newline ∉ body := fun member =>
        unbroken (List.mem_cons_of_mem _ (List.mem_append_left _ member))
      rw [withReturns, withReturns_of_unbroken unbrokenBody]
  | _ => rfl

theorem text_withReturns (wellFormed : part.WellFormed) :
    part.withReturns.text = ScriptLexer.withReturns part.text := by
  by_cases isString : part.kind = .string
  · obtain ⟨body, rfl⟩ := exists_body_of_kind isString
    have closing : (Lexeme.string body).text = [quote] ++ body ++ [quote] := rfl
    rw [closing, ScriptLexer.withReturns_append, ScriptLexer.withReturns_append]
    rfl
  · have unbroken := newline_notMem_text wellFormed isString
    rw [withReturns_eq_self unbroken, withReturns_of_unbroken unbroken]

theorem wellFormed_withReturns (wellFormed : part.WellFormed) : part.withReturns.WellFormed := by
  cases part with
  | string body =>
      intro member
      exact wellFormed (mem_of_mem_withReturns member (by decide))
  | _ => exact wellFormed

theorem admits_withReturns {rest : Bytes} (admits : part.Admits rest) :
    part.withReturns.Admits (ScriptLexer.withReturns rest) := by
  cases part with
  | symbol mark =>
      cases mark with
      | bang | equal | greater | less | slash => exact (startsWith_withReturns rfl rest).trans admits
      | _ => trivial
  | word text => exact (startsWith_withReturns rfl rest).trans admits
  | number whole fraction =>
      refine ⟨(startsWith_withReturns rfl rest).trans admits.1, ?_⟩
      intro integer isPoint
      rw [startsWith_withReturns rfl] at isPoint
      cases rest with
      | nil => cases isPoint
      | cons byte rest =>
          have notNewline : byte ≠ newline := by
            rw [eq_of_beq isPoint]
            decide
          rw [withReturns_cons_of_ne notNewline, List.tail_cons, startsWith_withReturns rfl]
          exact admits.2 integer isPoint
  | string body => trivial

/-- The token of a lexeme changes as the lexeme does. -/
theorem ofLexeme_withReturns (wellFormed : part.WellFormed) (line : Nat) :
    Token.ofLexeme part.withReturns line = (Token.ofLexeme part line).withReturns := by
  have text := text_withReturns wellFormed
  rw [Token.ofLexeme, text, Token.withReturns]
  cases part <;> rfl

end Lexeme

namespace Segment

variable {segment : Segment} {rest : Bytes}

theorem eq_blank_of_startsWith_newline (wellFormed : segment.WellFormed)
    (begins : startsWith (· == newline) (segment.text ++ rest) = true) :
    segment = .blank newline := by
  cases segment with
  | blank byte => rw [eq_of_beq begins]
  | lexeme part =>
      have notBlank := Lexeme.startsWith_isBlank wellFormed rest
      cases first : part.text ++ rest with
      | nil =>
          rw [text, first] at begins
          cases begins
      | cons byte after =>
          rw [text, first, startsWith_cons] at begins
          rw [first, startsWith_cons, eq_of_beq begins] at notBlank
          cases notBlank
  | stray byte => exact absurd (eq_of_beq begins) (ne_newline_of_stray wellFormed)
  | _ => cases begins

theorem text_withReturns (wellFormed : segment.WellFormed) (notNewline : segment ≠ .blank newline) :
    segment.withReturns.text = ScriptLexer.withReturns segment.text := by
  cases segment with
  | blank byte =>
      have inside : byte ≠ newline := fun same => notNewline (congrArg blank same)
      exact (withReturns_cons_of_ne inside []).symm
  | lineComment body =>
      have unbroken : newline ∉ (lineComment body).text := by
        simp only [text, List.mem_cons, not_or]
        exact ⟨by decide, by decide, wellFormed⟩
      rw [withReturns_of_unbroken unbroken]
      rfl
  | blockComment body =>
      have closing : (blockComment body).text = [slash, star] ++ body ++ [star, slash] := rfl
      rw [closing, withReturns_append, withReturns_append]
      rfl
  | lexeme part => exact Lexeme.text_withReturns wellFormed
  | stray byte => exact (withReturns_cons_of_ne (ne_newline_of_stray wellFormed) []).symm
  | openString body => rfl
  | openComment body => rfl

theorem newlines_text_withReturns (wellFormed : segment.WellFormed)
    (notNewline : segment ≠ .blank newline) :
    newlines segment.withReturns.text = newlines segment.text := by
  rw [text_withReturns wellFormed notNewline, newlines_withReturns]

theorem stands_withReturns (stands : segment.Stands rest)
    (lastComment : ∀ body, segment = .lineComment body → rest = []) :
    segment.withReturns.Stands (ScriptLexer.withReturns rest) := by
  obtain ⟨wellFormed, admits⟩ := stands
  cases segment with
  | blank byte => exact ⟨wellFormed, trivial⟩
  | lineComment body =>
      rw [lastComment body rfl]
      exact ⟨wellFormed, .inl rfl⟩
  | blockComment body => exact ⟨mt mark_infix_withReturns_iff.mp wellFormed, trivial⟩
  | lexeme part =>
      exact ⟨Lexeme.wellFormed_withReturns wellFormed, Lexeme.admits_withReturns admits⟩
  | stray byte => exact ⟨wellFormed, trivial⟩
  | openString body =>
      have ended : rest = [] := admits
      subst ended
      exact ⟨fun member => wellFormed (mem_of_mem_withReturns member (by decide)), rfl⟩
  | openComment body =>
      have ended : rest = [] := admits
      subst ended
      exact ⟨mt mark_infix_withReturns_iff.mp wellFormed, rfl⟩

end Segment

variable {cut : List Segment}

/-- What stands behind a line comment is nothing or the newline that ends it. -/
theorem behind_lineComment {body : Bytes} {rest : List Segment}
    (standing : Standing (.lineComment body :: rest)) :
    rest = [] ∨ ∃ later, rest = .blank newline :: later := by
  cases rest with
  | nil => exact .inl rfl
  | cons next later =>
      right
      have wellFormed := standing.2.1.wellFormed
      have begins := standing.1.admits
      rw [List.flatMap_cons] at begins
      rcases begins with ended | begins
      · exact absurd (List.append_eq_nil_iff.mp ended).1
          (Segment.text_ne_nil_of_wellFormed wellFormed)
      · exact ⟨later, by rw [Segment.eq_blank_of_startsWith_newline wellFormed begins]⟩

theorem eq_newline_of_lineComment {body : Bytes} {byte : UInt8} {rest : List Segment}
    (standing : Standing (.lineComment body :: .blank byte :: rest)) : byte = newline := by
  rcases behind_lineComment standing with ended | ⟨later, begins⟩
  · cases ended
  · exact Segment.blank.inj (List.cons.inj begins).1

theorem flatMap_text_returnedCut (standing : Standing cut) :
    (returnedCut cut).flatMap Segment.text = withReturns (cut.flatMap Segment.text) := by
  fun_induction returnedCut cut with
  | case1 body byte rest ih =>
      have isNewline := eq_newline_of_lineComment standing
      subst isNewline
      have unbroken : newline ∉ (Segment.lineComment body).text := by
        simp only [Segment.text, List.mem_cons, not_or]
        exact ⟨by decide, by decide, standing.1.wellFormed⟩
      rw [List.flatMap_cons, List.flatMap_cons, ih standing.2.2, List.flatMap_cons,
        List.flatMap_cons, withReturns_append, withReturns_of_unbroken unbroken,
        withReturns_append]
      simp [Segment.text, withReturns]
  | case2 byte rest ih =>
      rw [List.flatMap_append, flatMap_text_map_blank, ih standing.2, List.flatMap_cons,
        withReturns_append]
      rfl
  | case3 segment rest notComment notBlank ih =>
      rw [List.flatMap_cons, ih standing.2, List.flatMap_cons, withReturns_append,
        Segment.text_withReturns standing.1.wellFormed (notBlank newline)]
  | case4 => rfl

theorem standing_returnedCut (standing : Standing cut) : Standing (returnedCut cut) := by
  fun_induction returnedCut cut with
  | case1 body byte rest ih =>
      have isNewline := eq_newline_of_lineComment standing
      subst isNewline
      have unbroken : newline ∉ body ++ [carriageReturn] := by
        rw [List.mem_append, not_or]
        exact ⟨standing.1.wellFormed, by decide⟩
      exact ⟨⟨unbroken, .inr rfl⟩, ⟨rfl, trivial⟩, ih standing.2.2⟩
  | case2 byte rest ih =>
      have blank : ∀ other ∈ withReturns [byte], isBlank other = true := by
        intro other member
        by_cases isReturn : other = carriageReturn
        · rw [isReturn]
          rfl
        · rw [List.mem_singleton.mp (mem_of_mem_withReturns member isReturn)]
          exact standing.1.wellFormed
      rw [standing_map_blank_append blank]
      exact ih standing.2
  | case3 segment rest notComment notBlank ih =>
      refine ⟨?_, ih standing.2⟩
      rw [flatMap_text_returnedCut standing.2]
      apply Segment.stands_withReturns standing.1
      intro body isComment
      subst isComment
      rcases behind_lineComment standing with ended | ⟨later, begins⟩
      · rw [ended]
        rfl
      · exact (notComment body newline later rfl begins).elim
  | case4 => trivial

theorem segments_withReturns (source : Bytes) :
    segments (withReturns source) = returnedCut (segments source) := by
  have standing := standing_segments source
  refine segments_eq_iff.mpr ⟨?_, standing_returnedCut standing⟩
  rw [flatMap_text_returnedCut standing, flatMap_text_segments]

/-! What a scan reads off the segments with the other line ends. -/

/-- What is seen of segments other than blanks and line comments is seen on the same line. -/
theorem filterMap_returnedCut {α : Type} {observe : Placed → Option α} {change : α → α}
    (noBlank : ∀ byte offset line, observe ⟨.blank byte, offset, line⟩ = none)
    (noComment : ∀ body offset line, observe ⟨.lineComment body, offset, line⟩ = none)
    (changes : ∀ segment : Segment, segment.WellFormed → segment ≠ .blank newline →
      ∀ offset other line, observe ⟨segment.withReturns, other, line⟩ =
        (observe ⟨segment, offset, line⟩).map change)
    (wellFormed : ∀ segment ∈ cut, segment.WellFormed) (offset other line : Nat) :
    (placedFrom other line (returnedCut cut)).filterMap observe =
      ((placedFrom offset line cut).filterMap observe).map change := by
  fun_induction returnedCut cut generalizing offset other line with
  | case1 body byte rest ih =>
      rw [List.forall_mem_cons, List.forall_mem_cons] at wellFormed
      have sameLine : newlines (Segment.lineComment (body ++ [carriageReturn])).text =
          newlines (Segment.lineComment body).text :=
        newlines_append (slash :: slash :: body) [carriageReturn]
      simp only [placedFrom, List.filterMap_cons, noBlank, noComment, sameLine]
      exact ih wellFormed.2.2 _ _ _
  | case2 byte rest ih =>
      rw [List.forall_mem_cons] at wellFormed
      rw [placedFrom_append, List.filterMap_append, filterMap_placedFrom_map_blank noBlank,
        flatMap_text_map_blank, newlines_withReturns, List.nil_append, placedFrom,
        List.filterMap_cons, noBlank]
      exact ih wellFormed.2 _ _ _
  | case3 segment rest notComment notBlank ih =>
      rw [List.forall_mem_cons] at wellFormed
      have notNewline := notBlank newline
      have sameLine := Segment.newlines_text_withReturns wellFormed.1 notNewline
      rw [placedFrom, List.filterMap_cons, changes segment wellFormed.1 notNewline offset,
        sameLine, placedFrom, List.filterMap_cons, ih wellFormed.2]
      cases observe ⟨segment, offset, line⟩ <;> rfl
  | case4 => rfl

theorem body_withReturns (source : Bytes) :
    (scan (withReturns source)).body = (scan source).body.map Token.withReturns := by
  rw [body_eq, placedSegments, segments_withReturns, body_eq, placedSegments]
  apply filterMap_returnedCut (fun _ _ _ => rfl) (fun _ _ _ => rfl) _
    (fun _ => wellFormed_of_mem_segments)
  intro segment wellFormed _ offset other line
  cases segment with
  | lexeme part => exact congrArg some (Lexeme.ofLexeme_withReturns wellFormed line)
  | _ => rfl

theorem tokens_withReturns (source : Bytes) :
    (scan (withReturns source)).tokens = (scan source).tokens.map Token.withReturns := by
  rw [tokens_eq_body, body_withReturns, tokens_eq_body, List.map_append, lineAfter,
    newlines_withReturns]
  rfl

theorem diagnostics_withReturns (source : Bytes) :
    (scan (withReturns source)).diagnostics = (scan source).diagnostics := by
  have same := @filterMap_returnedCut (segments source) Diagnostic Placed.diagnostic? id
    (fun _ _ _ => rfl) (fun _ _ _ => rfl) ?_ (fun _ => wellFormed_of_mem_segments) 0 0 1
  · rw [diagnostics_eq_filterMap, placedSegments, segments_withReturns, same, List.map_id]
    rfl
  · intro segment wellFormed notNewline offset other line
    have sameFault : segment.withReturns.fault? = segment.fault? := by cases segment <;> rfl
    have sameLine := Segment.newlines_text_withReturns wellFormed notNewline
    rw [Placed.diagnostic?, Placed.endLine, sameFault, sameLine, Option.map_id]
    rfl

theorem withReturns_eq_self_or_string {source : Bytes} {token : Token}
    (member : token ∈ (scan source).tokens) :
    token.withReturns = token ∨ token.kind = .string ∧ newline ∈ token.lexeme := by
  rw [tokens_eq_body] at member
  rcases List.mem_append.mp member with inside | last
  · obtain ⟨inTokens, notEnd⟩ := List.mem_filter.mp inside
    obtain ⟨part, line, wellFormed, rfl⟩ :=
      exists_lexeme_of_mem_tokens inTokens (of_decide_eq_true notEnd)
    by_cases broken : newline ∈ part.text
    · right
      refine ⟨?_, broken⟩
      by_contra notString
      exact Lexeme.newline_notMem_text wellFormed notString broken
    · left
      rw [← Lexeme.ofLexeme_withReturns wellFormed, Lexeme.withReturns_eq_self broken]
  · left
    rw [List.mem_singleton.mp last]
    rfl

end ScriptLexer
