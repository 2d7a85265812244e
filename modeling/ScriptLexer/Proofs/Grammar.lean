import Mathlib
import ScriptLexer.Proofs.Scan.Places

namespace ScriptLexer

open Byte

/-! The lexical grammar, by the bytes alone.  `Reads` lists what a piece of a script
may be in front of what follows it, and whatever byte can begin none of these is a
piece of its own.  Every script factors into such pieces in exactly one way, and
the scan reads its tokens and its faults off them.
-/

inductive Form where
  | blank | lineComment | blockComment
  | symbol | string | number | word
  | stray | openString | openComment
deriving DecidableEq

/-- `Reads form text rest`: in front of `rest`, the text is a piece of this form. -/
inductive Reads : Form → Bytes → Bytes → Prop
  | blank {byte : UInt8} {rest : Bytes} (member : byte ∈ ascii " \t\r\n") :
      Reads .blank [byte] rest
  | lineComment {body rest : Bytes} (oneLine : newline ∉ body)
      (ends : rest = [] ∨ rest.head? = some newline) :
      Reads .lineComment (ascii "//" ++ body) rest
  | blockComment {body rest : Bytes}
      (first : ∀ offset < body.length, ¬ ascii "*/" <+: (body ++ ascii "*/").drop offset) :
      Reads .blockComment (ascii "/*" ++ body ++ ascii "*/") rest
  | mark {byte : UInt8} {rest : Bytes} (member : byte ∈ ascii "()\x7b\x7d,.-+;*") :
      Reads .symbol [byte] rest
  | comparison {byte : UInt8} {rest : Bytes} (member : byte ∈ ascii "!=<>")
      (ends : rest.head? ≠ some equals) : Reads .symbol [byte] rest
  | comparisonEquals {byte : UInt8} {rest : Bytes} (member : byte ∈ ascii "!=<>") :
      Reads .symbol [byte, equals] rest
  | slash {rest : Bytes} (noLineComment : rest.head? ≠ some slash)
      (noBlockComment : rest.head? ≠ some star) : Reads .symbol [slash] rest
  | string {body rest : Bytes} (unquoted : quote ∉ body) :
      Reads .string (quote :: (body ++ [quote])) rest
  | integer {digits rest : Bytes} (someDigits : digits ≠ [])
      (inside : ∀ byte ∈ digits, isDigit byte = true)
      (maximal : ∀ byte after, rest = byte :: after → isDigit byte = false)
      (undivided : ∀ byte after, rest = point :: byte :: after → isDigit byte = false) :
      Reads .number digits rest
  | decimal {whole fraction rest : Bytes} (someWhole : whole ≠ []) (someFraction : fraction ≠ [])
      (inside : ∀ byte ∈ whole ++ fraction, isDigit byte = true)
      (maximal : ∀ byte after, rest = byte :: after → isDigit byte = false) :
      Reads .number (whole ++ point :: fraction) rest
  | word {first : UInt8} {tail rest : Bytes} (letter : isWordStart first = true)
      (inside : ∀ byte ∈ tail, isWordByte byte = true)
      (maximal : ∀ byte after, rest = byte :: after → isWordByte byte = false) :
      Reads .word (first :: tail) rest
  | openString {body : Bytes} (unclosed : quote ∉ body) : Reads .openString (quote :: body) []
  | openComment {body : Bytes} (unclosed : ¬ ascii "*/" <:+: body) :
      Reads .openComment (ascii "/*" ++ body) []

inductive Fits : Form → Bytes → Bytes → Prop
  | read {form : Form} {text rest : Bytes} (reads : Reads form text rest) : Fits form text rest
  | stray {byte : UInt8} {rest : Bytes}
      (beginsNone : ∀ form tail after, ¬ Reads form (byte :: tail) after) :
      Fits .stray [byte] rest

/-- Texts that are pieces where they stand, none of them empty. -/
def Factored : List (Form × Bytes) → Prop
  | [] => True
  | (form, text) :: later =>
      text ≠ [] ∧ Fits form text (later.flatMap Prod.snd) ∧ Factored later

namespace Form

/-- The kind of the token that a text of this form becomes. -/
def kind? (form : Form) (text : Bytes) : Option Kind :=
  match form with
  | .symbol => (Symbol.ofText? text).map .symbol
  | .string => some .string
  | .number => some .number
  | .word => some (((Keyword.ofText? text).map .keyword).getD .identifier)
  | _ => none

def fault? : Form → Option Fault
  | .stray => some .unexpectedCharacter
  | .openString => some .unterminatedString
  | .openComment => some .unterminatedComment
  | _ => none

end Form

/-- `Becomes form text kind`: a text of this form becomes a token of this kind.  Symbols and
keywords go by their spelling, and a word that spells no keyword is an identifier. -/
inductive Becomes : Form → Bytes → Kind → Prop
  | symbol (mark : Symbol) : Becomes .symbol mark.text (.symbol mark)
  | string (text : Bytes) : Becomes .string text .string
  | number (text : Bytes) : Becomes .number text .number
  | keyword (word : Keyword) : Becomes .word word.text (.keyword word)
  | identifier {text : Bytes} (noKeyword : ∀ word : Keyword, word.text ≠ text) :
      Becomes .word text .identifier

theorem Form.kind?_eq_some_iff {form : Form} {text : Bytes} {kind : Kind} :
    form.kind? text = some kind ↔ Becomes form text kind := by
  constructor
  · intro isKind
    cases form with
    | symbol =>
        obtain ⟨mark, found, rfl⟩ := Option.map_eq_some_iff.mp isKind
        rw [← Symbol.ofText?_eq_some_iff.mp found]
        exact .symbol mark
    | word =>
        cases found : Keyword.ofText? text with
        | some word =>
            obtain rfl : .keyword word = kind := by simpa [kind?, found] using isKind
            rw [← Keyword.ofText?_eq_some_iff.mp found]
            exact .keyword word
        | none =>
            obtain rfl : .identifier = kind := by simpa [kind?, found] using isKind
            exact .identifier (Keyword.ofText?_eq_none_iff.mp found)
    | string =>
        cases isKind
        exact .string text
    | number =>
        cases isKind
        exact .number text
    | _ => cases isKind
  · intro becomes
    cases becomes with
    | symbol mark => simp [kind?, Symbol.ofText?_text]
    | keyword word => simp [kind?, Keyword.ofText?_text]
    | identifier noKeyword => simp [kind?, Keyword.ofText?_eq_none_iff.mpr noKeyword]
    | string | number => rfl

def Segment.form : Segment → Form
  | .blank _ => .blank
  | .lineComment _ => .lineComment
  | .blockComment _ => .blockComment
  | .lexeme (.symbol _) => .symbol
  | .lexeme (.word _) => .word
  | .lexeme (.number _ _) => .number
  | .lexeme (.string _) => .string
  | .stray _ => .stray
  | .openString _ => .openString
  | .openComment _ => .openComment

theorem startsWith_eq_false_iff {inClass : UInt8 → Bool} {text : Bytes} :
    startsWith inClass text = false ↔
      ∀ byte after, text = byte :: after → inClass byte = false := by
  cases text with
  | nil => simp
  | cons byte rest =>
      constructor
      · intro outside other after same
        rw [← (List.cons.inj same).1]
        exact outside
      · intro outside
        exact outside byte rest rfl

theorem startsWith_beq_eq_false_iff {byte : UInt8} {text : Bytes} :
    startsWith (· == byte) text = false ↔ text.head? ≠ some byte := by
  cases text <;> simp

theorem startsWith_tail_iff {rest : Bytes} :
    (startsWith (· == point) rest = true → startsWith isDigit rest.tail = false) ↔
      ∀ byte after, rest = point :: byte :: after → isDigit byte = false := by
  cases rest with
  | nil => simp
  | cons first tail =>
      rw [startsWith_cons, beq_iff_eq, List.tail_cons, startsWith_eq_false_iff]
      constructor
      · intro undivided byte after same
        obtain ⟨isPoint, behind⟩ := List.cons.inj same
        exact undivided isPoint byte after behind
      · intro undivided isPoint byte after behind
        exact undivided byte after (by rw [isPoint, behind])

/-- No closing mark stands before the last one just if there is none in the body:
the star of the last one is no slash. -/
theorem first_close_iff {body : Bytes} :
    (∀ offset < body.length, ¬ ascii "*/" <+: (body ++ ascii "*/").drop offset) ↔
      ¬ [star, slash] <:+: body := by
  induction body with
  | nil => simp
  | cons byte body ih =>
      have front : ascii "*/" <+: byte :: (body ++ ascii "*/") ↔
          byte = star ∧ body.head? = some slash := by
        have spelled : ascii "*/" = [star, slash] := rfl
        rw [spelled, List.cons_prefix_cons]
        cases body with
        | nil =>
            have different : star ≠ slash := by decide
            simp [different.symm]
        | cons second body => simp [eq_comm]
      rw [List.length_cons, Nat.forall_lt_succ_left, Segment.mark_infix_cons_iff, not_or, ← ih,
        List.drop_zero, List.cons_append, front]
      rfl

namespace Symbol

/-- The symbols that end with their byte, whatever comes next. -/
def plain : List Symbol :=
  [leftParen, rightParen, leftBrace, rightBrace, comma, dot, minus, plus, semicolon, star]

/-- The symbols that an equals sign makes longer. -/
def comparisons : List Symbol :=
  [bang, equal, less, greater]

def longComparisons : List Symbol :=
  [bangEqual, equalEqual, lessEqual, greaterEqual]

theorem map_text_plain : plain.map text = (ascii "()\x7b\x7d,.-+;*").map fun byte => [byte] := by
  decide

theorem map_text_comparisons :
    comparisons.map text = (ascii "!=<>").map fun byte => [byte] := by decide

theorem map_text_longComparisons :
    longComparisons.map text = (ascii "!=<>").map fun byte => [byte, equals] := by decide

theorem exists_mark_of_mem {marks : List Symbol} {bytes : Bytes} {spell : UInt8 → Bytes}
    (same : marks.map text = bytes.map spell) {byte : UInt8} (member : byte ∈ bytes) :
    ∃ mark ∈ marks, mark.text = spell byte := by
  apply List.mem_map.mp
  rw [same]
  exact List.mem_map_of_mem member

theorem exists_byte_of_mem {marks : List Symbol} {bytes : Bytes} {spell : UInt8 → Bytes}
    (same : marks.map text = bytes.map spell) {mark : Symbol} (member : mark ∈ marks) :
    ∃ byte ∈ bytes, spell byte = mark.text := by
  apply List.mem_map.mp
  rw [← same]
  exact List.mem_map_of_mem member

theorem mem_lists (mark : Symbol) :
    mark ∈ plain ∨ mark ∈ comparisons ∨ mark ∈ longComparisons ∨ mark = slash := by
  cases mark <;> decide

theorem admits_of_mem_plain {mark : Symbol} (member : mark ∈ plain) (rest : Bytes) :
    mark.Admits rest := by
  cases mark with
  | bang | equal | greater | less | slash => exact absurd member (by decide)
  | _ => trivial

theorem admits_of_mem_longComparisons {mark : Symbol} (member : mark ∈ longComparisons)
    (rest : Bytes) : mark.Admits rest := by
  cases mark with
  | bang | equal | greater | less | slash => exact absurd member (by decide)
  | _ => trivial

theorem admits_iff_of_mem_comparisons {mark : Symbol} (member : mark ∈ comparisons)
    {rest : Bytes} : mark.Admits rest ↔ rest.head? ≠ some equals := by
  cases mark with
  | bang | equal | greater | less => exact startsWith_beq_eq_false_iff
  | _ => exact absurd member (by decide)

theorem admits_slash_iff {rest : Bytes} :
    slash.Admits rest ↔ rest.head? ≠ some Byte.slash ∧ rest.head? ≠ some Byte.star := by
  cases rest with
  | nil => simp [Admits]
  | cons byte after => simp [Admits, isCommentMark]

end Symbol

/-- The symbols of the grammar are the symbols of the table. -/
theorem reads_symbol_iff {text rest : Bytes} :
    Reads .symbol text rest ↔ ∃ mark : Symbol, mark.text = text ∧ mark.Admits rest := by
  constructor
  · intro reads
    cases reads with
    | mark member =>
        obtain ⟨mark, isPlain, spelled⟩ := Symbol.exists_mark_of_mem Symbol.map_text_plain member
        exact ⟨mark, spelled, Symbol.admits_of_mem_plain isPlain rest⟩
    | comparison member ends =>
        obtain ⟨mark, isComparison, spelled⟩ :=
          Symbol.exists_mark_of_mem Symbol.map_text_comparisons member
        exact ⟨mark, spelled, (Symbol.admits_iff_of_mem_comparisons isComparison).mpr ends⟩
    | comparisonEquals member =>
        obtain ⟨mark, isLong, spelled⟩ :=
          Symbol.exists_mark_of_mem Symbol.map_text_longComparisons member
        exact ⟨mark, spelled, Symbol.admits_of_mem_longComparisons isLong rest⟩
    | slash noLineComment noBlockComment =>
        exact ⟨.slash, rfl, Symbol.admits_slash_iff.mpr ⟨noLineComment, noBlockComment⟩⟩
  · intro ⟨mark, spelled, admits⟩
    subst spelled
    rcases mark.mem_lists with isPlain | isComparison | isLong | isSlash
    · obtain ⟨byte, member, spelled⟩ := Symbol.exists_byte_of_mem Symbol.map_text_plain isPlain
      rw [← spelled]
      exact .mark member
    · obtain ⟨byte, member, spelled⟩ :=
        Symbol.exists_byte_of_mem Symbol.map_text_comparisons isComparison
      rw [← spelled]
      exact .comparison member ((Symbol.admits_iff_of_mem_comparisons isComparison).mp admits)
    · obtain ⟨byte, member, spelled⟩ :=
        Symbol.exists_byte_of_mem Symbol.map_text_longComparisons isLong
      rw [← spelled]
      exact .comparisonEquals member
    · subst isSlash
      obtain ⟨noLineComment, noBlockComment⟩ := Symbol.admits_slash_iff.mp admits
      exact .slash noLineComment noBlockComment

theorem mem_blanks_iff {byte : UInt8} : byte ∈ ascii " \t\r\n" ↔ isBlank byte = true := by
  have spelled : ascii " \t\r\n" = [space, tab, carriageReturn, newline] := by decide
  simp [spelled, isBlank, or_assoc]

theorem exists_segment_of_reads {form : Form} {text rest : Bytes}
    (reads : Reads form text rest) :
    ∃ segment : Segment, segment.form = form ∧ segment.text = text ∧ segment.Stands rest := by
  have given := reads
  cases reads with
  | @blank byte rest member => exact ⟨.blank byte, rfl, rfl, mem_blanks_iff.mp member, trivial⟩
  | @lineComment body rest oneLine ends =>
      refine ⟨.lineComment body, rfl, rfl, oneLine, ends.imp_right ?_⟩
      intro head
      simp [startsWith, head]
  | @blockComment body rest first =>
      refine ⟨.blockComment body, rfl, ?_, first_close_iff.mp first, trivial⟩
      simp [Segment.text, ascii]
      decide
  | mark | comparison | comparisonEquals | slash =>
      obtain ⟨mark, spelled, admits⟩ := reads_symbol_iff.mp given
      exact ⟨.lexeme (.symbol mark), rfl, spelled, trivial, admits⟩
  | @string body rest unquoted => exact ⟨.lexeme (.string body), rfl, rfl, unquoted, trivial⟩
  | @integer _ rest someDigits inside maximal undivided =>
      refine ⟨.lexeme (.number text []), rfl, ?_, ⟨someDigits, inside, by simp⟩, ?_⟩
      · exact List.append_nil text
      · refine ⟨startsWith_eq_false_iff.mpr maximal, ?_⟩
        intro _
        exact startsWith_tail_iff.mpr undivided
  | @decimal whole fraction rest someWhole someFraction inside maximal =>
      rw [List.forall_mem_append] at inside
      refine ⟨.lexeme (.number whole fraction), rfl, ?_, ⟨someWhole, inside⟩, ?_⟩
      · simp [Segment.text, Lexeme.text, Numeral.pointed, someFraction]
      · refine ⟨startsWith_eq_false_iff.mpr maximal, ?_⟩
        intro none
        exact absurd none someFraction
  | @word first tail rest letter inside maximal =>
      refine ⟨.lexeme (.word (first :: tail)), rfl, rfl, ⟨first, tail, rfl, letter, inside⟩, ?_⟩
      exact startsWith_eq_false_iff.mpr maximal
  | @openString body unclosed => exact ⟨.openString body, rfl, rfl, unclosed, rfl⟩
  | @openComment body unclosed => exact ⟨.openComment body, rfl, rfl, unclosed, rfl⟩

theorem reads_of_stands {segment : Segment} {rest : Bytes} (stands : segment.Stands rest)
    (notStray : segment.form ≠ .stray) : Reads segment.form segment.text rest := by
  obtain ⟨wellFormed, admits⟩ := stands
  cases segment with
  | blank byte => exact .blank (mem_blanks_iff.mpr wellFormed)
  | lineComment body =>
      refine .lineComment wellFormed (admits.imp_right ?_)
      intro ends
      cases rest with
      | nil => cases ends
      | cons byte after => exact congrArg some (eq_of_beq ends)
  | blockComment body =>
      have spelled : (Segment.blockComment body).text = ascii "/*" ++ body ++ ascii "*/" := rfl
      rw [spelled]
      exact .blockComment (first_close_iff.mpr wellFormed)
  | lexeme part =>
      cases part with
      | symbol mark => exact reads_symbol_iff.mpr ⟨mark, rfl, admits⟩
      | word text =>
          obtain ⟨first, tail, rfl, letter, inside⟩ := wellFormed
          exact .word letter inside (startsWith_eq_false_iff.mp admits)
      | number whole fraction =>
          obtain ⟨someDigits, digits, behindPoint⟩ := wellFormed
          obtain ⟨maximal, undivided⟩ := admits
          cases fraction with
          | nil =>
              have same : whole ++ Numeral.pointed [] = whole := List.append_nil whole
              simp only [Segment.form, Segment.text, Lexeme.text, same]
              exact .integer someDigits digits (startsWith_eq_false_iff.mp maximal)
                (startsWith_tail_iff.mp (undivided rfl))
          | cons digit fraction =>
              have all := List.forall_mem_append.mpr ⟨digits, behindPoint⟩
              exact .decimal someDigits (List.cons_ne_nil _ _) all
                (startsWith_eq_false_iff.mp maximal)
      | string body => exact .string wellFormed
  | stray byte => exact absurd rfl notStray
  | openString body =>
      have ended : rest = [] := admits
      subst ended
      exact .openString wellFormed
  | openComment body =>
      have ended : rest = [] := admits
      subst ended
      exact .openComment wellFormed

theorem stray_wellFormed {byte : UInt8}
    (beginsNone : ∀ form tail after, ¬ Reads form (byte :: tail) after) :
    (Segment.stray byte).WellFormed := by
  have noClass (segment : Segment) (stands : segment.Stands []) (notStray : segment.form ≠ .stray) :
      segment.text ≠ [byte] := by
    intro same
    have reads := reads_of_stands stands notStray
    rw [same] at reads
    exact beginsNone _ _ _ reads
  refine ⟨?_, ?_, ?_, ?_, ?_⟩
  · rw [← Bool.not_eq_true]
    intro blank
    exact noClass (.blank byte) ⟨blank, trivial⟩ (nofun) rfl
  · rw [← Bool.not_eq_true]
    intro digit
    exact noClass (.lexeme (.number [byte] [])) ⟨⟨by simp, by simpa, by simp⟩, rfl, by simp⟩
      (nofun) rfl
  · rw [← Bool.not_eq_true]
    intro letter
    exact noClass (.lexeme (.word [byte])) ⟨⟨byte, [], rfl, letter, by simp⟩, rfl⟩ (nofun) rfl
  · intro isQuote
    exact noClass (.openString []) ⟨by simp [Segment.WellFormed], rfl⟩ (nofun)
      (by rw [isQuote]; rfl)
  · cases found : Symbol.ofText? [byte] with
    | none => rfl
    | some mark =>
        have spelled := Symbol.ofText?_eq_some_iff.mp found
        exact absurd spelled
          (noClass (.lexeme (.symbol mark)) ⟨trivial, mark.admits_nil⟩ (nofun))

theorem fits_iff {form : Form} {text rest : Bytes} :
    Fits form text rest ↔
      ∃ segment : Segment, segment.form = form ∧ segment.text = text ∧ segment.Stands rest := by
  constructor
  · intro fits
    cases fits with
    | read reads => exact exists_segment_of_reads reads
    | @stray byte _ beginsNone =>
        exact ⟨.stray byte, rfl, rfl, stray_wellFormed beginsNone, trivial⟩
  · intro ⟨segment, sameForm, sameText, stands⟩
    subst sameForm sameText
    cases segment with
    | stray byte =>
        refine .stray ?_
        intro form tail after reads
        obtain ⟨other, sameForm, starts, otherStands⟩ := exists_segment_of_reads reads
        have otherCut := Segment.next_of_stands otherStands starts
        have strayStands : (Segment.stray byte).Stands (tail ++ after) :=
          ⟨stands.wellFormed, trivial⟩
        have strayCut := Segment.next_of_stands strayStands rfl
        rw [List.nil_append, otherCut] at strayCut
        rw [← sameForm, (Prod.mk.inj strayCut).1] at reads
        cases reads
    | lexeme part =>
        refine .read (reads_of_stands stands ?_)
        cases part <;> exact nofun
    | _ => exact .read (reads_of_stands stands (nofun))

def Segment.part (segment : Segment) : Form × Bytes :=
  (segment.form, segment.text)

theorem flatMap_snd_map_part (cut : List Segment) :
    (cut.map Segment.part).flatMap Prod.snd = cut.flatMap Segment.text := by
  rw [List.flatMap_map]
  rfl

theorem factored_iff {parts : List (Form × Bytes)} :
    Factored parts ↔ ∃ cut, Standing cut ∧ cut.map Segment.part = parts := by
  induction parts with
  | nil =>
      constructor
      · intro _
        exact ⟨[], trivial, rfl⟩
      · intro _
        trivial
  | cons part later ih =>
      obtain ⟨form, text⟩ := part
      constructor
      · intro ⟨_, fits, laterFactored⟩
        obtain ⟨cut, standing, same⟩ := ih.mp laterFactored
        obtain ⟨segment, sameForm, sameText, stands⟩ := fits_iff.mp fits
        rw [← same, flatMap_snd_map_part] at stands
        refine ⟨segment :: cut, ⟨stands, standing⟩, ?_⟩
        rw [List.map_cons, same, Segment.part, sameForm, sameText]
      · intro ⟨cut, standing, same⟩
        cases cut with
        | nil => cases same
        | cons segment cut =>
            obtain ⟨samePart, sameLater⟩ := List.cons.inj same
            obtain ⟨sameForm, sameText⟩ := Prod.mk.inj samePart
            refine ⟨?_, ?_, ih.mpr ⟨cut, standing.2, sameLater⟩⟩
            · rw [← sameText]
              exact Segment.text_ne_nil_of_wellFormed standing.1.wellFormed
            · rw [fits_iff, ← sameLater, flatMap_snd_map_part]
              exact ⟨segment, sameForm, sameText, standing.1⟩

theorem factored_and_flatMap_iff {parts : List (Form × Bytes)} {source : Bytes} :
    Factored parts ∧ parts.flatMap Prod.snd = source ↔
      parts = (segments source).map Segment.part := by
  constructor
  · intro ⟨factored, together⟩
    obtain ⟨cut, standing, same⟩ := factored_iff.mp factored
    rw [← same, flatMap_snd_map_part] at together
    rw [segments_eq_iff.mpr ⟨together, standing⟩, same]
  · intro same
    rw [same, flatMap_snd_map_part]
    exact ⟨factored_iff.mpr ⟨_, standing_segments source, rfl⟩, flatMap_text_segments source⟩

/-- What the scan shows of a piece that becomes a token. -/
theorem map_lexeme?_eq_map_kind? (segment : Segment) :
    (segment.lexeme?.map fun part => (part.kind, part.text)) =
      (segment.form.kind? segment.text).map fun kind => (kind, segment.text) := by
  cases segment with
  | lexeme part =>
      cases part with
      | symbol mark =>
          have found : (Symbol.ofText? mark.text) = some mark := mark.ofText?_text
          simp only [Segment.lexeme?, Segment.form, Segment.text, Form.kind?, Lexeme.text, found]
          rfl
      | _ => rfl
  | _ => rfl

theorem fault?_form (segment : Segment) : segment.form.fault? = segment.fault? := by
  cases segment with
  | lexeme part => cases part <;> rfl
  | _ => rfl

/-- Every script is a row of pieces in exactly one way.  The tokens of its scan are
those of the pieces that become tokens, each of the kind that its form and its spelling
give, and its faults are those of the others. -/
theorem existsUnique_factorisation (source : Bytes) :
    ∃ parts : List (Form × Bytes),
      (Factored parts ∧ parts.flatMap Prod.snd = source) ∧
        (∀ others, Factored others ∧ others.flatMap Prod.snd = source → others = parts) ∧
        (scan source).tokens.map (fun token => (token.kind, token.lexeme)) =
          (parts.filterMap fun part => (part.1.kind? part.2).map fun kind => (kind, part.2)) ++
            [(.endOfFile, [])] ∧
        (∀ part ∈ parts, ∀ kind, part.1.kind? part.2 = some kind ↔ Becomes part.1 part.2 kind) ∧
        (scan source).diagnostics.map Diagnostic.message =
          parts.filterMap fun part => part.1.fault?.map Fault.message := by
  refine ⟨(segments source).map Segment.part, factored_and_flatMap_iff.mpr rfl, ?_, ?_, ?_, ?_⟩
  · intro others factors
    exact factored_and_flatMap_iff.mp factors
  · have observed (lexeme : Lexeme) (line : Nat) :
        ((Token.ofLexeme lexeme line).kind, (Token.ofLexeme lexeme line).lexeme) =
          (lexeme.kind, lexeme.text) := rfl
    rw [map_tokens observed, lexemes, List.map_filterMap, List.filterMap_map]
    congr 2
    funext segment
    exact map_lexeme?_eq_map_kind? segment
  · intro part _ kind
    exact Form.kind?_eq_some_iff
  · rw [map_message_diagnostics, List.filterMap_map]
    congr 1
    funext segment
    exact congrArg (Option.map Fault.message) (fault?_form segment).symm

end ScriptLexer
