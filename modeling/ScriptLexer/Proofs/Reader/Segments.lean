import Mathlib
import ScriptLexer.Proofs.Reader.Cursor
import ScriptLexer.Proofs.Scan.Places
import ScriptLexer.Proofs.Token.Fusion

namespace ScriptLexer

open Byte

/-! How a reader gets to the end of a segment once the bytes that decide what it is are
read.  There is one law for each kind of segment, and all of them speak of the reader at the
first byte, where the lexeme begins.
-/

theorem Literal.ofDigits?_text {whole fraction : Bytes}
    (wellFormed : (Lexeme.number whole fraction).WellFormed) :
    Literal.ofDigits? (Lexeme.number whole fraction).text =
      (Lexeme.number whole fraction).literal? := by
  obtain ⟨nonempty, digits, behindPoint⟩ := wellFormed
  have stops : startsWith isDigit (Numeral.pointed fraction) = false := by
    cases fraction <;> rfl
  have dropped : (Numeral.pointed fraction).drop 1 = fraction := by
    cases fraction <;> rfl
  simp only [ofDigits?, Lexeme.text, takeWhile_append_of_stops digits stops,
    dropWhile_append_of_stops digits stops, dropped]
  rw [if_pos ⟨nonempty, List.all_eq_true.mpr behindPoint, trivial⟩]

namespace Reader

/-- The reader and the collector behind a segment at the cursor. -/
def behind (reader : Reader) (sink : Collector) (segment : Segment) : Reader × Collector :=
  let placed : Placed := ⟨segment, reader.current, reader.line⟩
  ({ reader.past segment.text with tokens := reader.tokens ++ placed.token?.toList },
    sink.report placed.diagnostic?.toList)

variable {reader : Reader} {sink : Collector} {rest : Bytes}

theorem behind_lexeme (reader : Reader) (sink : Collector) (part : Lexeme) :
    reader.behind sink (.lexeme part) =
      ((reader.past part.text).push (Token.ofLexeme part reader.line), sink) := by
  have silent : sink.report [] = sink := sink.report_nil
  exact congrArg (Prod.mk _) silent

theorem behind_silent (segment : Segment) (noLexeme : segment.lexeme? = none)
    (noFault : segment.fault? = none) :
    reader.behind sink segment = (reader.past segment.text, sink) := by
  rw [behind, Placed.diagnostic?, noFault, Option.map_none, Option.toList_none,
    Collector.report_nil]
  cases segment with
  | lexeme part => cases noLexeme
  | _ => simp [Placed.token?, past]

theorem behind_fault {segment : Segment} {fault : Fault} (faulty : segment.fault? = some fault) :
    reader.behind sink segment =
      (reader.past segment.text, (reader.past segment.text).error sink fault.message) := by
  rw [behind, Placed.diagnostic?, faulty]
  cases segment with
  | lexeme part => cases faulty
  | _ => simp [Placed.token?, past, error, Diagnostic.ofFault, Placed.endLine]

/-- The token of a lexeme that is read to its end.  Only strings have newlines inside. -/
theorem addToken?_text {part : Lexeme} (fresh : reader.start = reader.current)
    (text : reader.ahead = part.text ++ rest) (wellFormed : part.WellFormed)
    (notString : part.kind ≠ .string) :
    (reader.past part.text).addToken? part.kind part.literal? =
      some ((reader.past part.text).push (Token.ofLexeme part reader.line)) :=
  addToken?_past fresh text (@Segment.text_ne_nil_of_wellFormed (.lexeme part) wellFormed)
    (Lexeme.newline_notMem_text wellFormed notString)

theorem scanString?_closed {body : Bytes} (fresh : reader.start = reader.current)
    (text : reader.ahead = quote :: body ++ quote :: rest) (unquoted : quote ∉ body) :
    (reader.past [quote]).scanString? sink =
      some (reader.behind sink (.lexeme (.string body))) := by
  have advanced := advanceWhile?_behind (until_peek · quote) text (all_ne_of_notMem unquoted)
    (by simp)
  have closing : (reader.past (quote :: body)).ahead = quote :: rest := ahead_past text
  have whole : reader.ahead = (quote :: body ++ [quote]) ++ rest := by simp [text]
  have lexeme := lexeme?_past fresh whole (List.cons_ne_nil _ _)
  have sameLine : (reader.past [quote]).line = reader.line := rfl
  simp only [scanString?, Option.bind_eq_bind, advanced, Option.bind_some,
    not_atEnd_of_ahead closing, Bool.false_eq_true, if_false, advance?_eq closing, past_past,
    lexeme, sameLine, behind_lexeme]
  simp [Token.ofLexeme, Lexeme.text, Lexeme.kind, Lexeme.literal?]

theorem scanString?_open {body : Bytes} (text : reader.ahead = quote :: body)
    (unquoted : quote ∉ body) :
    (reader.past [quote]).scanString? sink = some (reader.behind sink (.openString body)) := by
  rw [← List.append_nil body] at text
  have advanced := advanceWhile?_behind (until_peek · quote) text (all_ne_of_notMem unquoted)
    (startsWith_nil _)
  have ended : (reader.past (quote :: body)).ahead = [] := ahead_past text
  simp only [scanString?, Option.bind_eq_bind, advanced, Option.bind_some, atEnd_of_ahead ended,
    if_true]
  rw [behind_fault rfl]
  rfl

theorem scanFraction?_eq {whole fraction : Bytes}
    (text : reader.ahead = Numeral.pointed fraction ++ rest)
    (stands : (Segment.lexeme (.number whole fraction)).Stands rest) :
    reader.scanFraction? = some (reader.past (Numeral.pointed fraction)) := by
  obtain ⟨⟨_, _, behindPoint⟩, stops, noPoint⟩ := stands
  cases fraction with
  | nil =>
      have here : reader.ahead = rest := text
      have undivided : ¬ (reader.peek = point ∧ isDigit reader.peekNext = true) := by
        intro divided
        obtain ⟨isPoint, digit⟩ := divided
        have atPoint : startsWith (· == point) rest = true := by
          rw [← here, ← class_peek rfl, isPoint]
          rfl
        have noZero : isDigit 0 = false := rfl
        rw [class_peekNext noZero, here, noPoint rfl atPoint] at digit
        cases digit
      rw [scanFraction?, if_neg undivided]
      rfl
  | cons digit fraction =>
      have pointed : reader.ahead = point :: (digit :: fraction ++ rest) := text
      have divided : reader.peek = point ∧ isDigit reader.peekNext = true := by
        rw [peek_eq, peekNext_eq, pointed]
        exact ⟨rfl, behindPoint digit List.mem_cons_self⟩
      have advanced := advanceWhile?_behind (class_peek rfl) pointed behindPoint stops
      simp only [scanFraction?, if_pos divided, Option.bind_eq_bind, advance?_eq pointed,
        Option.bind_some, advanced]
      rfl

theorem scanNumber?_eq {first : UInt8} {tail fraction : Bytes}
    (fresh : reader.start = reader.current)
    (text : reader.ahead = (Lexeme.number (first :: tail) fraction).text ++ rest)
    (stands : (Segment.lexeme (.number (first :: tail) fraction)).Stands rest) :
    (reader.past [first]).scanNumber? sink =
      some (reader.behind sink (.lexeme (.number (first :: tail) fraction))) := by
  have spelled : reader.ahead = first :: (tail ++ (Numeral.pointed fraction ++ rest)) := by
    rw [text, Lexeme.text, List.append_assoc, List.cons_append]
  have pointed : (reader.past (first :: tail)).ahead = Numeral.pointed fraction ++ rest :=
    ahead_past spelled
  have digits : ∀ byte ∈ tail, isDigit byte = true := fun byte member =>
    stands.wellFormed.2.1 byte (List.mem_cons_of_mem first member)
  have stops : startsWith isDigit (Numeral.pointed fraction ++ rest) = false := by
    cases fraction with
    | nil => exact stands.admits.1
    | cons digit fraction => rfl
  have advanced := advanceWhile?_behind (class_peek rfl) spelled digits stops
  have divided : (reader.past (first :: tail)).scanFraction? =
      some (reader.past (Lexeme.number (first :: tail) fraction).text) := by
    rw [scanFraction?_eq pointed stands, past_past, Lexeme.text]
  have lexeme := lexeme?_past fresh text (List.cons_ne_nil _ _)
  have literal := Literal.ofDigits?_text stands.wellFormed
  have notString : (Lexeme.number (first :: tail) fraction).kind ≠ .string := by
    intro isString
    cases isString
  have added := addToken?_text fresh text stands.wellFormed notString
  simp only [scanNumber?, Option.bind_eq_bind, advanced, Option.bind_some, divided, lexeme,
    literal, Lexeme.literal?]
  rw [behind_lexeme]
  exact congrArg (Option.bind · fun ended => some (ended, sink)) added

theorem scanWord?_eq {first : UInt8} {tail : Bytes} (fresh : reader.start = reader.current)
    (text : reader.ahead = first :: tail ++ rest)
    (stands : (Segment.lexeme (.word (first :: tail))).Stands rest) :
    (reader.past [first]).scanWord? =
      some ((reader.past (first :: tail)).push (Token.ofLexeme (.word (first :: tail)) reader.line)) := by
  obtain ⟨letter, bytes, spelled, isLetter, wordBytes⟩ := stands.wellFormed
  obtain ⟨rfl, rfl⟩ := List.cons.inj spelled
  have advanced := advanceWhile?_behind (class_peek rfl) text wordBytes stands.admits
  have lexeme := lexeme?_past fresh text (List.cons_ne_nil _ _)
  have notString : (Lexeme.word (first :: tail)).kind ≠ .string := by
    intro isString
    obtain ⟨body, same⟩ := Lexeme.exists_body_of_kind isString
    cases same
  have wellFormed : (Lexeme.word (first :: tail)).WellFormed := stands.wellFormed
  have added := addToken?_text fresh text wellFormed notString
  simp only [scanWord?, Option.bind_eq_bind, advanced, Option.bind_some, lexeme]
  exact added

theorem skipLineComment?_eq {body : Bytes} (text : reader.ahead = body ++ rest)
    (stands : (Segment.lineComment body).Stands rest) :
    reader.skipLineComment? = some (reader.past body) := by
  apply advanceWhile?_of_class (until_peek · newline) text (all_ne_of_notMem stands.wellFormed)
  rcases stands.admits with ended | ends
  · rw [ended, startsWith_nil]
  · cases rest with
    | nil => rfl
    | cons byte after => simpa using ends

/-- The loop over a block comment goes on in front of every byte but the closing mark. -/
theorem advanceWhile?_unclosed {body : Bytes} (text : reader.ahead = body ++ rest)
    (unclosed : ¬ [star, slash] <:+: body)
    (ends : rest = [] ∨ ∃ after, rest = star :: slash :: after) :
    (reader.advanceWhile? fun reader =>
        !reader.atEnd && !(reader.peek == star && reader.peekNext == slash)) =
      some (reader.past body) := by
  apply advanceWhile?_eq text
  · intro done next left split
    have here : (reader.past done).ahead = next :: (left ++ rest) := by
      apply ahead_past
      rw [text, split, List.append_assoc, List.cons_append]
    have noMark : ¬ (next = star ∧ (left ++ rest).headD 0 = slash) := by
      intro mark
      obtain ⟨rfl, second⟩ := mark
      cases left with
      | nil =>
          rcases ends with rfl | ⟨after, rfl⟩
          · cases second
          · cases second
      | cons byte left =>
          have isSlash : byte = slash := second
          subst isSlash
          exact unclosed ⟨done, left, by simp [split]⟩
    rw [not_and_or] at noMark
    rw [atEnd_eq, peek_eq, peekNext_eq, here]
    simpa using noMark
  · rw [atEnd_eq, peek_eq, peekNext_eq, ahead_past text]
    rcases ends with rfl | ⟨after, rfl⟩
    · rfl
    · rfl

theorem skipBlockComment?_closed {body : Bytes}
    (text : reader.ahead = body ++ star :: slash :: rest) (unclosed : ¬ [star, slash] <:+: body) :
    reader.skipBlockComment? sink = some (reader.past (body ++ [star, slash]), sink) := by
  have advanced := advanceWhile?_unclosed text unclosed (.inr ⟨rest, rfl⟩)
  have closing : (reader.past body).ahead = star :: slash :: rest := ahead_past text
  have second : ((reader.past body).past [star]).ahead = slash :: rest := ahead_past closing
  rw [past_past] at second
  simp only [skipBlockComment?, Option.bind_eq_bind, advanced, Option.bind_some,
    not_atEnd_of_ahead closing, Bool.false_eq_true, if_false, advance?_eq closing,
    advance?_eq second, past_past, List.append_assoc]
  rfl

theorem skipBlockComment?_open {body : Bytes} (text : reader.ahead = body)
    (unclosed : ¬ [star, slash] <:+: body) :
    reader.skipBlockComment? sink =
      some (reader.past body, (reader.past body).error sink Fault.unterminatedComment.message) := by
  rw [← List.append_nil body] at text
  have advanced := advanceWhile?_unclosed text unclosed (.inl rfl)
  have ended : (reader.past body).ahead = [] := ahead_past text
  simp only [skipBlockComment?, Option.bind_eq_bind, advanced, Option.bind_some,
    atEnd_of_ahead ended, if_true]
  rfl

end Reader

end ScriptLexer
