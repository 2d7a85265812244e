import Mathlib
import ScriptLexer.Proofs.Scan.Spacing
import ScriptLexer.Proofs.Scan.Split

namespace ScriptLexer

open Byte

/-! Scripts with one more blank.  Whatever lies in front of the blank keeps its end, unless the
blank stands directly behind it or inside it.  Behind a segment it is a segment of its own or
becomes a part of one that gives nothing; inside a lexeme it leaves another lexeme there.
-/

/-- A text with one more byte in front of the one at an offset. -/
def withByte (text : Bytes) (offset : Nat) (byte : UInt8) : Bytes :=
  text.take offset ++ byte :: text.drop offset

theorem withByte_append (front back : Bytes) (byte : UInt8) :
    withByte (front ++ back) front.length byte = front ++ byte :: back := by
  rw [withByte, List.take_left, List.drop_left]

variable {byte : UInt8} {source head tail : Bytes} {segment : Segment} {front back : List Segment}

theorem newlines_concat (notNewline : byte ≠ newline) (text : Bytes) :
    newlines (text ++ [byte]) = newlines text := by
  have none : newlines [byte] = 0 := by
    rw [newlines_eq_zero_iff, List.mem_singleton]
    exact notNewline.symm
  rw [newlines_append, none, Nat.add_zero]

theorem not_isDigit_of_isBlank (blank : isBlank byte = true) : isDigit byte = false := by
  rw [← Bool.not_eq_true]
  intro digit
  rw [not_isBlank_of_isDigit digit] at blank
  cases blank

/-! Segments in front of the place. -/

/-- A byte further behind is seen by a number with a point next to it, and by nothing else. -/
theorem Segment.admits_insert {first : UInt8} (admits : segment.Admits (first :: head ++ tail))
    (notDigit : isDigit byte = false) : segment.Admits (first :: head ++ byte :: tail) := by
  cases segment with
  | lineComment body => exact .inr (admits.resolve_left (List.cons_ne_nil _ _))
  | lexeme part =>
      cases part with
      | symbol mark => cases mark <;> exact admits
      | word text => exact admits
      | number whole fraction =>
          refine ⟨admits.1, ?_⟩
          intro integer isPoint
          cases head with
          | nil => exact notDigit
          | cons second head => exact admits.2 integer isPoint
      | string body => trivial
  | openString body => exact absurd admits (List.cons_ne_nil _ _)
  | openComment body => exact absurd admits (List.cons_ne_nil _ _)
  | blank byte | blockComment body | stray byte => trivial

theorem standing_insert (standing : Standing (front ++ back))
    (split : back.flatMap Segment.text = head ++ tail) (someHead : head ≠ [])
    (notDigit : isDigit byte = false) :
    Standing (front ++ segments (head ++ byte :: tail)) := by
  induction front with
  | nil => exact standing_segments _
  | cons segment front ih =>
      rw [List.cons_append, Standing] at standing ⊢
      obtain ⟨⟨wellFormed, admits⟩, standing⟩ := standing
      refine ⟨⟨wellFormed, ?_⟩, ih standing⟩
      have someText : front.flatMap Segment.text ++ head ≠ [] :=
        List.append_ne_nil_of_right_ne_nil _ someHead
      obtain ⟨first, between, starts⟩ := List.exists_cons_of_ne_nil someText
      rw [List.flatMap_append, split, ← List.append_assoc, starts] at admits
      rw [List.flatMap_append, flatMap_text_segments, ← List.append_assoc, starts]
      exact Segment.admits_insert admits notDigit

/-- The segments in front stay as they are, and the rest is cut anew. -/
theorem segments_insert (cut : segments source = front ++ back)
    (split : back.flatMap Segment.text = head ++ tail) (someHead : head ≠ [])
    (notDigit : isDigit byte = false) :
    segments (front.flatMap Segment.text ++ head ++ byte :: tail) =
      front ++ segments (head ++ byte :: tail) := by
  have standing := standing_segments source
  rw [cut] at standing
  refine segments_eq_iff.mpr ⟨?_, standing_insert standing split someHead notDigit⟩
  rw [List.flatMap_append, flatMap_text_segments, List.append_assoc]

/-! Behind a segment. -/

namespace Segment

/-- A segment with a blank behind it.  What goes on up to the end of the line or of the text
takes the blank in. -/
def withBlank (byte : UInt8) : Segment → List Segment
  | .lineComment body => [.lineComment (body ++ [byte])]
  | .openString body => [.openString (body ++ [byte])]
  | .openComment body => [.openComment (body ++ [byte])]
  | other => [other, .blank byte]

theorem flatMap_text_withBlank (segment : Segment) (byte : UInt8) :
    (segment.withBlank byte).flatMap text = segment.text ++ [byte] := by
  cases segment <;> simp [withBlank, text]

theorem mark_infix_concat_iff {body : Bytes} (notSlash : byte ≠ slash) :
    [star, slash] <:+: body ++ [byte] ↔ [star, slash] <:+: body := by
  rw [List.infix_concat_iff, or_iff_right]
  intro ends
  obtain ⟨before, same⟩ := ends
  rw [List.append_cons] at same
  exact notSlash (List.singleton_inj.mp (List.append_inj' same rfl).2).symm

theorem standing_withBlank (blank : isBlank byte = true) (notNewline : byte ≠ newline)
    (standing : Standing (segment :: back)) : Standing (segment.withBlank byte ++ back) := by
  obtain ⟨⟨wellFormed, admits⟩, standing⟩ := standing
  have apart (other : Segment) (fits : other.WellFormed)
      (ends : other.Admits (byte :: back.flatMap text)) :
      Standing ([other, .blank byte] ++ back) :=
    ⟨⟨fits, ends⟩, ⟨blank, trivial⟩, standing⟩
  cases segment with
  | blank other | blockComment body | stray other => exact apart _ wellFormed trivial
  | lexeme part => exact apart _ wellFormed (part.admits_of_breaks (.inr blank))
  | lineComment body =>
      refine ⟨⟨?_, admits⟩, standing⟩
      intro member
      rcases List.mem_append.mp member with inside | last
      · exact wellFormed inside
      · exact notNewline (List.mem_singleton.mp last).symm
  | openString body =>
      refine ⟨⟨?_, admits⟩, standing⟩
      intro member
      rcases List.mem_append.mp member with inside | last
      · exact wellFormed inside
      · rw [← List.mem_singleton.mp last] at blank
        cases blank
  | openComment body =>
      have notSlash : byte ≠ slash := by
        rintro rfl
        cases blank
      exact ⟨⟨mt (mark_infix_concat_iff notSlash).mp wellFormed, admits⟩, standing⟩

end Segment

theorem segments_withBlank (blank : isBlank byte = true) (notNewline : byte ≠ newline)
    (cut : segments source = front ++ segment :: back) :
    segments (front.flatMap Segment.text ++ segment.text ++ byte :: back.flatMap Segment.text) =
      front ++ segment.withBlank byte ++ back := by
  have standing := standing_segments source
  rw [cut] at standing
  have someText : segment.text ≠ [] :=
    Segment.text_ne_nil_of_wellFormed standing.stands_of_append.wellFormed
  have behind : (segment.withBlank byte ++ back).flatMap Segment.text =
      segment.text ++ byte :: back.flatMap Segment.text := by
    rw [List.flatMap_append, Segment.flatMap_text_withBlank, List.append_assoc]
    rfl
  have anew := segments_flatMap_text
    (Segment.standing_withBlank blank notNewline standing.of_append)
  rw [behind] at anew
  rw [segments_insert cut List.flatMap_cons someText (not_isDigit_of_isBlank blank), anew,
    List.append_assoc]

/-! What a scan gives does not depend on the offsets of segments. -/

theorem filterMap_placedFrom_add {α : Type} {observe : Placed → Option α}
    (anywhere : ∀ bytes placed, observe (Placed.moved bytes 0 placed) = observe placed)
    (bytes offset line : Nat) (cut : List Segment) :
    (placedFrom (offset + bytes) line cut).filterMap observe =
      (placedFrom offset line cut).filterMap observe := by
  have places := placedFrom_add bytes 0 offset line cut
  rw [Nat.add_zero] at places
  rw [places, List.filterMap_map]
  exact List.filterMap_congr fun placed _ => anywhere bytes placed

theorem token?_moved_zero (bytes : Nat) (placed : Placed) :
    (Placed.moved bytes 0 placed).token? = placed.token? :=
  (token?_moved bytes 0 placed).trans Option.map_id_apply

theorem diagnostic?_moved_zero (bytes : Nat) (placed : Placed) :
    (Placed.moved bytes 0 placed).diagnostic? = placed.diagnostic? :=
  (diagnostic?_moved bytes 0 placed).trans Option.map_id_apply

theorem filterMap_placedFrom_replace {α : Type} {observe : Placed → Option α}
    {older newer : List Segment}
    (anywhere : ∀ bytes placed, observe (Placed.moved bytes 0 placed) = observe placed)
    (longer : newer.flatMap Segment.text = older.flatMap Segment.text ++ [byte])
    (notNewline : byte ≠ newline)
    (same : ∀ offset line, (placedFrom offset line newer).filterMap observe =
      (placedFrom offset line older).filterMap observe) :
    (placedFrom 0 1 (front ++ newer ++ back)).filterMap observe =
      (placedFrom 0 1 (front ++ older ++ back)).filterMap observe := by
  have sameLine : newlines ((front ++ newer).flatMap Segment.text) =
      newlines ((front ++ older).flatMap Segment.text) := by
    rw [List.flatMap_append, List.flatMap_append, longer, ← List.append_assoc,
      newlines_concat notNewline]
  have further : ((front ++ newer).flatMap Segment.text).length =
      ((front ++ older).flatMap Segment.text).length + 1 := by
    rw [List.flatMap_append, List.flatMap_append, longer, ← List.append_assoc, List.length_append,
      List.length_singleton]
  rw [placedFrom_append, List.filterMap_append, placedFrom_append 0 1 (front ++ older),
    List.filterMap_append, sameLine, further, ← Nat.add_assoc, filterMap_placedFrom_add anywhere,
    placedFrom_append, List.filterMap_append, same, placedFrom_append 0 1 front older,
    List.filterMap_append]

theorem scan_eq_of_replace {changed : Bytes} {older newer : List Segment}
    (cut : segments source = front ++ older ++ back)
    (cutChanged : segments changed = front ++ newer ++ back)
    (longer : newer.flatMap Segment.text = older.flatMap Segment.text ++ [byte])
    (notNewline : byte ≠ newline)
    (sameTokens : ∀ offset line, (placedFrom offset line newer).filterMap Placed.token? =
      (placedFrom offset line older).filterMap Placed.token?)
    (sameDiagnostics : ∀ offset line,
      (placedFrom offset line newer).filterMap Placed.diagnostic? =
        (placedFrom offset line older).filterMap Placed.diagnostic?) :
    scan changed = scan source := by
  have lastLine : lineBehind 1 (segments changed) = lineBehind 1 (segments source) := by
    rw [lineBehind_eq, lineBehind_eq, cut, cutChanged]
    simp only [List.flatMap_append, longer, newlines_append _ (back.flatMap _),
      newlines_append (front.flatMap _), newlines_concat notNewline]
  rw [scan, scan, lastLine, placedSegments, placedSegments, cut, cutChanged,
    filterMap_placedFrom_replace token?_moved_zero longer notNewline sameTokens,
    filterMap_placedFrom_replace diagnostic?_moved_zero longer notNewline sameDiagnostics]

theorem filterMap_token?_withBlank (segment : Segment) (byte : UInt8) (offset line : Nat) :
    (placedFrom offset line (segment.withBlank byte)).filterMap Placed.token? =
      (placedFrom offset line [segment]).filterMap Placed.token? := by
  cases segment <;> rfl

/-- What is wrong with a segment is told at the same line if it is longer by a byte of that line. -/
theorem filterMap_diagnostic?_longer {longer : Segment} (sameFault : longer.fault? = segment.fault?)
    (spelled : longer.text = segment.text ++ [byte]) (notNewline : byte ≠ newline)
    (offset line : Nat) :
    (placedFrom offset line [longer]).filterMap Placed.diagnostic? =
      (placedFrom offset line [segment]).filterMap Placed.diagnostic? := by
  have same : (Placed.mk longer offset line).diagnostic? =
      (Placed.mk segment offset line).diagnostic? := by
    rw [Placed.diagnostic?, Placed.diagnostic?, Placed.endLine, Placed.endLine, sameFault, spelled,
      newlines_concat notNewline]
  simp only [placedFrom, List.filterMap_cons, same]

theorem filterMap_diagnostic?_withBlank (notNewline : byte ≠ newline) (segment : Segment)
    (offset line : Nat) :
    (placedFrom offset line (segment.withBlank byte)).filterMap Placed.diagnostic? =
      (placedFrom offset line [segment]).filterMap Placed.diagnostic? := by
  cases segment with
  | openString body | openComment body =>
      refine filterMap_diagnostic?_longer ?_ ?_ notNewline offset line <;> rfl
  | _ => rfl

/-- A blank between two segments, or behind the last, is not seen in what a scan gives. -/
theorem scan_withByte_of_split (blank : isBlank byte = true) (notNewline : byte ≠ newline)
    (cut : segments source = front ++ back) :
    scan (withByte source (front.flatMap Segment.text).length byte) = scan source := by
  have inserted : withByte source (front.flatMap Segment.text).length byte =
      front.flatMap Segment.text ++ byte :: back.flatMap Segment.text := by
    rw [text_of_split cut, withByte_append]
  rw [inserted]
  rcases List.eq_nil_or_concat' front with rfl | ⟨before, segment, rfl⟩
  · have stands : (Segment.blank byte).Stands (back.flatMap Segment.text) := ⟨blank, trivial⟩
    have cutNothing : segments source = [] ++ [] ++ back := cut
    have cutInserted : segments (byte :: back.flatMap Segment.text) = [] ++ [.blank byte] ++ back := by
      rw [← segments_of_split cut, flatMap_text_segments]
      exact segments_text_append stands
    exact scan_eq_of_replace cutNothing cutInserted rfl notNewline (fun _ _ => rfl) fun _ _ => rfl
  · have cutBehind : segments source = before ++ segment :: back := by
      rw [cut, List.append_assoc, List.singleton_append]
    have cutInserted := segments_withBlank blank notNewline cutBehind
    have longer : (segment.withBlank byte).flatMap Segment.text =
        [segment].flatMap Segment.text ++ [byte] := by
      rw [Segment.flatMap_text_withBlank, List.flatMap_singleton]
    rw [List.flatMap_append, List.flatMap_singleton]
    exact scan_eq_of_replace cut cutInserted longer notNewline
      (filterMap_token?_withBlank segment byte) (filterMap_diagnostic?_withBlank notNewline segment)

/-! Inside a lexeme. -/

namespace Lexeme

variable {part : Lexeme} {whole fraction : Bytes}

/-- A number that is broken off ends with the digits that are there, but not with a point. -/
theorem exists_shorter_number (wellFormed : (Lexeme.number whole fraction).WellFormed)
    (split : whole ++ Numeral.pointed fraction = head ++ tail) (someHead : head ≠ [])
    (blank : isBlank byte = true) (rest : Bytes) :
    ∃ (other : Lexeme) (left : Bytes), other.text ++ left = head ∧
      (Segment.lexeme other).Stands (left ++ byte :: rest) := by
  have stands {other : Lexeme} (fits : other.WellFormed) :
      (Segment.lexeme other).Stands ([] ++ byte :: rest) :=
    ⟨fits, other.admits_of_breaks (.inr blank)⟩
  obtain ⟨someWhole, digits, behindPoint⟩ := wellFormed
  rcases List.append_eq_append_iff.mp split with ⟨pointed, rfl, isFraction⟩ | ⟨more, rfl, _⟩
  · cases pointed with
    | nil =>
        refine ⟨.number whole [], [], ?_, stands ⟨someWhole, digits, List.forall_mem_nil _⟩⟩
        simp [text, Numeral.pointed]
    | cons first decimals =>
        obtain ⟨digit, fraction, rfl⟩ : ∃ digit later, fraction = digit :: later := by
          apply List.exists_cons_of_ne_nil
          rintro rfl
          cases isFraction
        obtain ⟨rfl, spelled⟩ : point = first ∧ digit :: fraction = decimals ++ tail :=
          List.cons.inj isFraction
        have inside : ∀ byte ∈ decimals, isDigit byte = true := by
          rw [spelled, List.forall_mem_append] at behindPoint
          exact behindPoint.1
        by_cases noDecimals : decimals = []
        · subst noDecimals
          refine ⟨.number whole [], [point], ?_, ⟨someWhole, digits, List.forall_mem_nil _⟩, rfl, ?_⟩
          · simp [text, Numeral.pointed]
          · intro _ _
            exact not_isDigit_of_isBlank blank
        · refine ⟨.number whole decimals, [], ?_, stands ⟨someWhole, digits, inside⟩⟩
          simp [text, Numeral.pointed, noDecimals]
  · rw [List.forall_mem_append] at digits
    refine ⟨.number head [], [], ?_, stands ⟨someHead, digits.1, List.forall_mem_nil _⟩⟩
    simp [text, Numeral.pointed]

/-- In front of the blank there is a lexeme, and it is shorter than the one that was there. -/
theorem exists_shorter (wellFormed : part.WellFormed) (notString : part.kind ≠ .string)
    (split : part.text = head ++ tail) (someHead : head ≠ []) (someTail : tail ≠ [])
    (blank : isBlank byte = true) (rest : Bytes) :
    ∃ (other : Lexeme) (left : Bytes), other.text ++ left = head ∧
      (Segment.lexeme other).Stands (left ++ byte :: rest) := by
  have stands {other : Lexeme} (fits : other.WellFormed) :
      (Segment.lexeme other).Stands ([] ++ byte :: rest) :=
    ⟨fits, other.admits_of_breaks (.inr blank)⟩
  cases part with
  | symbol mark =>
      have sizes := congrArg List.length split
      have short := mark.length_text
      have positive := List.length_pos_iff.mpr someHead
      have positiveTail := List.length_pos_iff.mpr someTail
      rw [text, List.length_append] at sizes
      obtain ⟨first, rfl⟩ := List.length_eq_one_iff.mp (show head.length = 1 by omega)
      obtain ⟨second, rfl⟩ := List.length_eq_one_iff.mp (show tail.length = 1 by omega)
      obtain ⟨single, spelled⟩ := Symbol.exists_single_of_pair split
      exact ⟨.symbol single, [], by rw [text, spelled, List.append_nil], stands trivial⟩
  | word word =>
      obtain ⟨first, heads, rfl⟩ := List.exists_cons_of_ne_nil someHead
      obtain ⟨_, _, spelled, letter, inside⟩ := wellFormed
      obtain ⟨rfl, rfl⟩ := List.cons.inj (spelled.symm.trans split)
      rw [List.append_eq, List.forall_mem_append] at inside
      exact ⟨.word (_ :: heads), [], List.append_nil _, stands ⟨_, heads, rfl, letter, inside.1⟩⟩
  | number whole fraction => exact exists_shorter_number wellFormed split someHead blank rest
  | string body => exact absurd rfl notString

/-- A string stays one string, and it is longer. -/
theorem exists_longer {body : Bytes} (unquoted : quote ∉ body)
    (split : (Lexeme.string body).text = head ++ tail) (someHead : head ≠ [])
    (someTail : tail ≠ []) (blank : isBlank byte = true) :
    ∃ longer : Bytes, quote ∉ longer ∧ (Lexeme.string longer).text = head ++ byte :: tail := by
  obtain ⟨first, inner, rfl⟩ := List.exists_cons_of_ne_nil someHead
  obtain ⟨outer, last, rfl⟩ := (List.eq_nil_or_concat' tail).resolve_left someTail
  obtain ⟨rfl, closing⟩ := List.cons.inj split
  have closing := closing.trans (List.append_assoc inner outer [last]).symm
  obtain ⟨rfl, isQuote⟩ := List.append_inj' closing rfl
  obtain rfl := List.singleton_inj.mp isQuote
  refine ⟨inner ++ byte :: outer, ?_, by simp [text]⟩
  rw [List.mem_append, List.mem_cons, not_or, not_or]
  rw [List.mem_append, not_or] at unquoted
  refine ⟨unquoted.1, ?_, unquoted.2⟩
  rintro rfl
  cases blank

/-- A lexeme that is broken by a blank gives way to another one at its place. -/
theorem exists_segments_of_broken (wellFormed : part.WellFormed) (split : part.text = head ++ tail)
    (someHead : head ≠ []) (someTail : tail ≠ []) (blank : isBlank byte = true) (rest : Bytes) :
    ∃ (other : Lexeme) (later : List Segment), other.text ≠ part.text ∧
      segments (head ++ byte :: (tail ++ rest)) = .lexeme other :: later := by
  by_cases isString : part.kind = .string
  · obtain ⟨body, rfl⟩ := exists_body_of_kind isString
    obtain ⟨longer, unquoted, spelled⟩ := exists_longer wellFormed split someHead someTail blank
    have stands : (Segment.lexeme (.string longer)).Stands rest := ⟨unquoted, trivial⟩
    refine ⟨.string longer, segments rest, ?_, ?_⟩
    · intro same
      have sizes := congrArg List.length (spelled.symm.trans (same.trans split))
      simp at sizes
    · have cut := segments_text_append stands
      rw [Segment.text, spelled, List.append_assoc] at cut
      exact cut
  · obtain ⟨other, left, together, stands⟩ :=
      exists_shorter wellFormed isString split someHead someTail blank (tail ++ rest)
    refine ⟨other, segments (left ++ byte :: (tail ++ rest)), ?_, ?_⟩
    · intro same
      rw [← same, ← together, List.append_assoc, List.self_eq_append_right] at split
      exact someTail (List.append_eq_nil_iff.mp split).2
    · rw [← together, List.append_assoc]
      exact segments_text_append stands

end Lexeme

theorem exists_tokens_of_split {part : Lexeme}
    (cut : segments source = front ++ .lexeme part :: back) :
    ∃ later, (scan source).tokens =
      (placedFrom 0 1 front).filterMap Placed.token? ++
        Token.ofLexeme part (lineAfter (front.flatMap Segment.text)) :: later := by
  rw [scan, placedSegments, cut, placedFrom_append, List.filterMap_append, List.append_assoc]
  exact ⟨_, rfl⟩

/-- Up to the broken lexeme the tokens are the same, and there they differ. -/
theorem tokens_withByte_ne_of_split {part : Lexeme}
    (cut : segments source = front ++ .lexeme part :: back) (split : part.text = head ++ tail)
    (someHead : head ≠ []) (someTail : tail ≠ []) (blank : isBlank byte = true) :
    (scan (withByte source ((front.flatMap Segment.text) ++ head).length byte)).tokens ≠
      (scan source).tokens := by
  have standing := standing_segments source
  rw [cut] at standing
  have rest : (Segment.lexeme part :: back).flatMap Segment.text =
      head ++ (tail ++ back.flatMap Segment.text) := by
    rw [List.flatMap_cons, Segment.text, split, List.append_assoc]
  have inserted : withByte source ((front.flatMap Segment.text) ++ head).length byte =
      front.flatMap Segment.text ++ head ++ byte :: (tail ++ back.flatMap Segment.text) := by
    rw [text_of_split cut, rest, ← List.append_assoc, withByte_append]
  obtain ⟨other, later, different, broken⟩ := Lexeme.exists_segments_of_broken
    standing.stands_of_append.wellFormed split someHead someTail blank (back.flatMap Segment.text)
  have cutInserted := segments_insert cut rest someHead (not_isDigit_of_isBlank blank)
  rw [broken] at cutInserted
  obtain ⟨_, tokens⟩ := exists_tokens_of_split cut
  obtain ⟨_, tokensInserted⟩ := exists_tokens_of_split cutInserted
  rw [inserted, tokens, tokensInserted]
  intro same
  have sameToken := (List.cons.inj (List.append_cancel_left same)).1
  exact different (congrArg Token.lexeme sameToken)

theorem exists_split_of_mem_tokenPlaces {place : Nat × Token} (member : place ∈ tokenPlaces source)
    (someText : place.2.lexeme ≠ []) :
    ∃ front part back, segments source = front ++ .lexeme part :: back ∧
      (front.flatMap Segment.text).length = place.1 ∧ part.text = place.2.lexeme := by
  rcases List.mem_append.mp member with inside | last
  · obtain ⟨placed, isPlaced, shown⟩ := List.mem_filterMap.mp inside
    obtain ⟨token, isToken, rfl⟩ := Option.map_eq_some_iff.mp shown
    obtain ⟨before, after, places⟩ := List.append_of_mem isPlaced
    have cut := segments_split places
    have offset := (placedFrom_split places).1
    rw [Nat.zero_add, ← flatMap_text_map_segment] at offset
    have text := lexeme_of_token? isToken
    cases shape : placed.segment with
    | lexeme part =>
        rw [shape] at cut text
        exact ⟨_, part, _, cut, offset.symm, text.symm⟩
    | _ =>
        rw [Placed.token?, shape] at isToken
        cases isToken
  · rw [List.mem_singleton.mp last] at someText
    exact absurd rfl someText

theorem tokens_withByte_ne {place : Nat × Token} {offset : Nat}
    (member : place ∈ tokenPlaces source) (behind : place.1 < offset)
    (within : offset < place.1 + place.2.lexeme.length) (blank : isBlank byte = true) :
    (scan (withByte source offset byte)).tokens ≠ (scan source).tokens := by
  have someText : place.2.lexeme ≠ [] := by
    intro noText
    rw [noText, List.length_nil] at within
    omega
  obtain ⟨front, part, back, cut, begins, text⟩ := exists_split_of_mem_tokenPlaces member someText
  rw [← text] at within
  have split := (List.take_append_drop (offset - place.1) part.text).symm
  have sizeHead : (part.text.take (offset - place.1)).length = offset - place.1 := by
    rw [List.length_take]
    omega
  have someHead : part.text.take (offset - place.1) ≠ [] :=
    List.ne_nil_of_length_pos (by omega)
  have someTail : part.text.drop (offset - place.1) ≠ [] :=
    List.ne_nil_of_length_pos (by rw [List.length_drop]; omega)
  have different := tokens_withByte_ne_of_split cut split someHead someTail blank
  rwa [List.length_append, sizeHead, begins, Nat.add_sub_cancel' behind.le] at different

end ScriptLexer
