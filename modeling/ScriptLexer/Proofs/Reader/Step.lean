import Mathlib
import ScriptLexer.Proofs.Reader.Segments

namespace ScriptLexer

open Byte

/-! One round of the main loop.  A reader that begins at a segment comes to its end, with the
token or the diagnostic of the segment and nothing else.
-/

namespace Symbol

variable {mark longer : Symbol} {byte : UInt8} {rest : Bytes}

/-- What the first bytes of other segments have in common. -/
theorem ofText?_singleton_eq_none
    (other : isBlank byte = true ∨ byte = quote ∨ isDigit byte = true ∨ isWordStart byte = true) :
    ofText? [byte] = none := by
  cases found : ofText? [byte] with
  | none => rfl
  | some mark =>
      have first : byte = mark.text.headD 0 := by rw [ofText?_eq_some_iff.mp found]; rfl
      subst first
      cases mark <;> exact absurd other (by decide)

theorem text_of_withEquals? (lengthens : mark.withEquals? = some longer) :
    longer.text = mark.text ++ [equals] := by
  cases mark with
  | bang | equal | greater | less => cases lengthens; rfl
  | _ => cases lengthens

theorem stops_of_withEquals? (lengthens : mark.withEquals? = some longer)
    (admits : mark.Admits rest) : startsWith (· == equals) rest = false := by
  cases mark with
  | bang | equal | greater | less => exact admits
  | _ => cases lengthens

/-- A symbol of two bytes is made of another one by an equals sign. -/
theorem exists_withEquals? (two : mark.text.length = 2) :
    ∃ short : Symbol, short.withEquals? = some mark ∧ short ≠ .slash := by
  cases mark with
  | bangEqual => exact ⟨.bang, rfl, by decide⟩
  | equalEqual => exact ⟨.equal, rfl, by decide⟩
  | greaterEqual => exact ⟨.greater, rfl, by decide⟩
  | lessEqual => exact ⟨.less, rfl, by decide⟩
  | _ => exact absurd two (by decide)

end Symbol

namespace Reader

variable {reader : Reader} {sink : Collector} {rest : Bytes}

/-- What a round of the main loop does when its first byte is read. -/
theorem scanToken?_eq {byte : UInt8} (text : reader.ahead = byte :: rest) :
    reader.scanToken? sink =
      match Symbol.ofText? [byte] with
      | some .slash => (reader.past [byte]).scanSlash? sink
      | some mark => ((reader.past [byte]).scanSymbol? mark).map (·, sink)
      | none =>
          if isBlank byte then some (reader.past [byte], sink)
          else if byte = quote then (reader.past [byte]).scanString? sink
          else if isDigit byte then (reader.past [byte]).scanNumber? sink
          else if isWordStart byte then (reader.past [byte]).scanWord?.map (·, sink)
          else some (reader.past [byte],
            (reader.past [byte]).error sink Fault.unexpectedCharacter.message) := by
  rw [scanToken?, advance?_eq text]
  rfl

theorem scanToken?_eq_scanSymbol? {mark : Symbol} {byte : UInt8}
    (text : reader.ahead = byte :: rest) (spelled : mark.text = [byte]) (notSlash : mark ≠ .slash) :
    reader.scanToken? sink = ((reader.past [byte]).scanSymbol? mark).map (·, sink) := by
  rw [scanToken?_eq text, Symbol.ofText?_eq_some_iff.mpr spelled]
  cases mark with
  | slash => exact absurd rfl notSlash
  | _ => rfl

theorem addToken?_symbol {mark : Symbol} (fresh : reader.start = reader.current)
    (text : reader.ahead = mark.text ++ rest) :
    ((reader.past mark.text).addToken? (.symbol mark) none).map (·, sink) =
      some (reader.behind sink (.lexeme (.symbol mark))) := by
  have notString : (Lexeme.symbol mark).kind ≠ .string := by
    intro isString
    cases isString
  have added := @addToken?_text reader rest (.symbol mark) fresh text trivial notString
  rw [behind_lexeme]
  exact congrArg (Option.map (·, sink)) added

theorem scanSlash?_alone (text : reader.ahead = rest)
    (noComment : startsWith isCommentMark rest = false) :
    reader.scanSlash? sink = (reader.addToken? (.symbol .slash) none).map (·, sink) := by
  have noMark : startsWith (· == slash) rest = false ∧ startsWith (· == star) rest = false := by
    cases rest with
    | nil => exact ⟨rfl, rfl⟩
    | cons byte rest => simpa [isCommentMark] using noComment
  rw [← text] at noMark
  rw [scanSlash?, accept?_eq_none noMark.1, accept?_eq_none noMark.2]

theorem scanToken?_of_symbol {mark : Symbol} (fresh : reader.start = reader.current)
    (text : reader.ahead = mark.text ++ rest) (admits : mark.Admits rest) :
    reader.scanToken? sink = some (reader.behind sink (.lexeme (.symbol mark))) := by
  rw [← addToken?_symbol fresh text]
  rcases mark.length_text with one | two
  · obtain ⟨byte, spelled⟩ := List.length_eq_one_iff.mp one
    rw [spelled] at text ⊢
    have behindByte : (reader.past [byte]).ahead = rest := ahead_past text
    by_cases isSlash : mark = .slash
    · subst isSlash
      obtain rfl := List.singleton_inj.mp spelled
      rw [scanToken?_eq text]
      exact scanSlash?_alone behindByte admits
    · rw [scanToken?_eq_scanSymbol? text spelled isSlash, scanSymbol?]
      cases lengthens : mark.withEquals? with
      | none => rfl
      | some longer =>
          have stops := Symbol.stops_of_withEquals? lengthens admits
          rw [← behindByte] at stops
          simp only [accept?_eq_none stops]
  · obtain ⟨short, lengthens, notSlash⟩ := Symbol.exists_withEquals? two
    have pair := Symbol.text_of_withEquals? lengthens
    obtain ⟨byte, spelled⟩ : ∃ byte, short.text = [byte] := by
      apply List.length_eq_one_iff.mp
      rw [pair, List.length_append] at two
      exact Nat.succ.inj two
    rw [pair, spelled] at text ⊢
    have behindByte : (reader.past [byte]).ahead = equals :: rest := ahead_past text
    rw [scanToken?_eq_scanSymbol? text spelled notSlash, scanSymbol?, lengthens]
    simp only [accept?_eq behindByte (by decide), past_past]

theorem scanToken?_eq_of_other {byte : UInt8} (text : reader.ahead = byte :: rest)
    (other : Symbol.ofText? [byte] = none) :
    reader.scanToken? sink =
      if isBlank byte then some (reader.past [byte], sink)
      else if byte = quote then (reader.past [byte]).scanString? sink
      else if isDigit byte then (reader.past [byte]).scanNumber? sink
      else if isWordStart byte then (reader.past [byte]).scanWord?.map (·, sink)
      else some (reader.past [byte],
        (reader.past [byte]).error sink Fault.unexpectedCharacter.message) := by
  rw [scanToken?_eq text, other]

theorem scanToken?_slash (text : reader.ahead = slash :: rest) :
    reader.scanToken? sink = (reader.past [slash]).scanSlash? sink := by
  rw [scanToken?_eq text]
  rfl

theorem scanToken?_of_lineComment {body : Bytes}
    (text : reader.ahead = slash :: slash :: body ++ rest)
    (stands : (Segment.lineComment body).Stands rest) :
    reader.scanToken? sink = some (reader.past (slash :: slash :: body), sink) := by
  have second : (reader.past [slash]).ahead = slash :: (body ++ rest) := ahead_past text
  have inside : ((reader.past [slash]).past [slash]).ahead = body ++ rest := ahead_past second
  have skipped := skipLineComment?_eq inside stands
  rw [scanToken?_slash text, scanSlash?, accept?_eq second (by decide)]
  rw [past_past, past_past] at skipped
  simp only [past_past, skipped]
  rfl

/-- Behind its opening mark a block comment is skipped. -/
theorem scanToken?_slash_star (text : reader.ahead = slash :: star :: rest) :
    reader.scanToken? sink = (reader.past [slash, star]).skipBlockComment? sink := by
  have second : (reader.past [slash]).ahead = star :: rest := ahead_past text
  have noLine : startsWith (· == slash) (reader.past [slash]).ahead = false := by
    rw [second]
    rfl
  rw [scanToken?_slash text, scanSlash?, accept?_eq_none noLine,
    accept?_eq second (by decide)]
  simp only [past_past]
  rfl

theorem scanToken?_quote (text : reader.ahead = quote :: rest) :
    reader.scanToken? sink = (reader.past [quote]).scanString? sink := by
  rw [scanToken?_eq text]
  rfl

theorem scanToken?_of_word {first : UInt8} {tail : Bytes} (fresh : reader.start = reader.current)
    (text : reader.ahead = first :: tail ++ rest)
    (stands : (Segment.lexeme (.word (first :: tail))).Stands rest)
    (letter : isWordStart first = true) :
    reader.scanToken? sink = some (reader.behind sink (.lexeme (.word (first :: tail)))) := by
  have other := Symbol.ofText?_singleton_eq_none (.inr (.inr (.inr letter)))
  have notBlank := not_isBlank_of_isWordStart letter
  have notDigit := not_isDigit_of_isWordStart letter
  have notQuote : first ≠ quote := by
    intro isQuote
    subst isQuote
    cases letter
  rw [scanToken?_eq_of_other text other, notBlank, if_neg notQuote, notDigit, letter,
    scanWord?_eq fresh text stands, behind_lexeme]
  rfl

theorem scanToken?_of_number {first : UInt8} {tail fraction : Bytes}
    (fresh : reader.start = reader.current)
    (text : reader.ahead = (Lexeme.number (first :: tail) fraction).text ++ rest)
    (stands : (Segment.lexeme (.number (first :: tail) fraction)).Stands rest) :
    reader.scanToken? sink =
      some (reader.behind sink (.lexeme (.number (first :: tail) fraction))) := by
  have digit := stands.wellFormed.2.1 first List.mem_cons_self
  have other := Symbol.ofText?_singleton_eq_none (.inr (.inr (.inl digit)))
  have notBlank := not_isBlank_of_isDigit digit
  have notQuote : first ≠ quote := by
    intro isQuote
    subst isQuote
    cases digit
  rw [scanToken?_eq_of_other text other, notBlank, if_neg notQuote, digit]
  exact scanNumber?_eq fresh text stands

/-- A reader that begins at a segment comes to its end, whatever the collector holds. -/
theorem scanToken?_of_stands {segment : Segment} (fresh : reader.start = reader.current)
    (text : reader.ahead = segment.text ++ rest) (stands : segment.Stands rest) :
    reader.scanToken? sink = some (reader.behind sink segment) := by
  cases segment with
  | blank byte =>
      have blank : isBlank byte = true := stands.wellFormed
      have other := Symbol.ofText?_singleton_eq_none (.inl blank)
      rw [scanToken?_eq_of_other text other, if_pos blank, behind_silent (.blank byte) rfl rfl]
      rfl
  | lineComment body =>
      rw [scanToken?_of_lineComment text stands, behind_silent (.lineComment body) rfl rfl]
      rfl
  | blockComment body =>
      have opening : reader.ahead = slash :: star :: (body ++ star :: slash :: rest) := by
        rw [text, Segment.text]
        simp
      have inside : (reader.past [slash, star]).ahead = body ++ star :: slash :: rest :=
        ahead_past opening
      rw [scanToken?_slash_star opening, skipBlockComment?_closed inside stands.wellFormed,
        behind_silent (.blockComment body) rfl rfl, past_past]
      rfl
  | lexeme part =>
      cases part with
      | symbol mark => exact scanToken?_of_symbol fresh text stands.admits
      | word word =>
          obtain ⟨first, tail, rfl, letter, _⟩ := stands.wellFormed
          exact scanToken?_of_word fresh text stands letter
      | number whole fraction =>
          cases whole with
          | nil => exact absurd rfl stands.wellFormed.1
          | cons first tail => exact scanToken?_of_number fresh text stands
      | string body =>
          have opening : reader.ahead = quote :: body ++ quote :: rest := by
            rw [text, Segment.text, Lexeme.text]
            simp
          rw [scanToken?_quote opening, scanString?_closed fresh opening stands.wellFormed]
  | stray byte =>
      obtain ⟨notBlank, notDigit, notLetter, notQuote, other⟩ := stands.wellFormed
      rw [scanToken?_eq_of_other text other, notBlank, if_neg notQuote, notDigit, notLetter,
        behind_fault rfl]
      rfl
  | openString body =>
      have opening : reader.ahead = quote :: body := by
        rw [text, stands.admits, List.append_nil, Segment.text]
      rw [scanToken?_quote opening, scanString?_open opening stands.wellFormed]
  | openComment body =>
      have opening : reader.ahead = slash :: star :: body := by
        rw [text, stands.admits, List.append_nil, Segment.text]
      have inside : (reader.past [slash, star]).ahead = body := ahead_past opening
      rw [scanToken?_slash_star opening, skipBlockComment?_open inside stands.wellFormed,
        behind_fault rfl, past_past]
      rfl

end Reader

end ScriptLexer
