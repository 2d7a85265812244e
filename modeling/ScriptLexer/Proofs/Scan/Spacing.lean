import Mathlib
import ScriptLexer.Proofs.Scan.Places
import ScriptLexer.Proofs.Token.Fusion

namespace ScriptLexer

open Byte

/-! Tokens that are written out again, with blanks between them or not.  A scan gives
them back just if none stands directly before what it is read together with.
-/

/-- What a token is, wherever it stands. -/
def Token.content (token : Token) : Kind × Bytes × Option Literal :=
  (token.kind, token.lexeme, token.literal)

/-- A number without a point, which digits behind a point would make longer. -/
def Token.isInteger (token : Token) : Bool :=
  token.kind == .number && !token.lexeme.contains point

/-- The bytes of tokens, each with those that are written behind it. -/
def written (items : List (Token × Bytes)) : Bytes :=
  items.flatMap fun item => item.1.lexeme ++ item.2

/-- Whether a token is read together with those that are written directly behind it.
An integer takes a point only if it takes a digit too. -/
def Token.fusesWith (first : Token) : List (Token × Bytes) → Bool
  | [] => false
  | (second, gap) :: later =>
      first.kind.fuses second.kind ||
        (first.isInteger && second.kind == .symbol .dot && gap.isEmpty &&
          later.head?.any fun third => third.1.kind == .number)

/-- No token stands directly before what it is read together with. -/
def KeptApart (items : List (Token × Bytes)) : Prop :=
  ∀ before first later, items = before ++ (first, []) :: later → first.fusesWith later = false

theorem keptApart_nil : KeptApart [] := by
  intro before first later split
  cases before <;> cases split

theorem keptApart_cons {first : Token} {gap : Bytes} {later : List (Token × Bytes)} :
    KeptApart ((first, gap) :: later) ↔
      (gap = [] → first.fusesWith later = false) ∧ KeptApart later := by
  constructor
  · intro apart
    refine ⟨?_, ?_⟩
    · intro noGap
      exact apart [] first later (by rw [noGap, List.nil_append])
    · intro before second behind split
      exact apart ((first, gap) :: before) second behind (by rw [split, List.cons_append])
  · intro ⟨here, apart⟩ before second behind split
    cases before with
    | nil =>
        obtain ⟨same, sameLater⟩ := List.cons.inj split
        obtain ⟨sameToken, noGap⟩ := Prod.mk.inj same
        rw [← sameToken, ← sameLater]
        exact here noGap
    | cons other before => exact apart before second behind (List.cons.inj split).2

/-- A lexeme of some script, written with blanks behind it. -/
structure Spaced where
  lexeme : Lexeme
  line : Nat
  gap : Bytes
  wellFormed : lexeme.WellFormed
  blank : ∀ byte ∈ gap, isBlank byte = true

namespace Spaced

def token (part : Spaced) : Token :=
  .ofLexeme part.lexeme part.line

def item (part : Spaced) : Token × Bytes :=
  (part.token, part.gap)

def cut (part : Spaced) : List Segment :=
  .lexeme part.lexeme :: part.gap.map .blank

theorem isInteger_token (part : Spaced) : part.token.isInteger = part.lexeme.isInteger := by
  obtain ⟨lexeme, line, gap, wellFormed, blank⟩ := part
  cases lexeme with
  | symbol mark => rfl
  | word text =>
      have notNumber : (Lexeme.word text).kind ≠ .number := by
        intro same
        simpa [same, Kind.isWord] using Lexeme.isWord_kind_word text
      simp [Token.isInteger, token, Token.ofLexeme, Lexeme.isInteger, notNumber]
  | number whole fraction =>
      have noPoint : point ∉ whole := by
        intro member
        exact absurd (wellFormed.2.1 point member) (by decide)
      cases fraction <;>
        simp [Token.isInteger, token, Token.ofLexeme, Lexeme.kind, Lexeme.isInteger, Lexeme.text,
          Numeral.pointed, noPoint]
  | string body => rfl

theorem written_cons (part : Spaced) (later : List Spaced) :
    written ((part :: later).map item) =
      part.lexeme.text ++ (part.gap ++ written (later.map item)) := by
  rw [← List.append_assoc]
  rfl

theorem breaks_gap (part : Spaced) (someGap : part.gap ≠ []) (rest : Bytes) :
    Breaks (part.gap ++ rest) := by
  obtain ⟨first, gap, starts⟩ := List.exists_cons_of_ne_nil someGap
  right
  rw [starts]
  exact part.blank first (by simp [starts])

theorem startsWith_isDigit_written (part : Spaced) (later : List Spaced) :
    startsWith isDigit (part.gap ++ written (later.map item)) =
      (part.gap.isEmpty && (later.map item).head?.any fun third => third.1.kind == .number) := by
  by_cases noGap : part.gap = []
  · rw [noGap]
    cases later with
    | nil => rfl
    | cons next later =>
        rw [List.nil_append, written_cons, Lexeme.startsWith_isDigit next.wellFormed]
        rfl
  · rw [(part.breaks_gap noGap _).startsWith_eq_false rfl rfl rfl rfl]
    simp [noGap]

/-- A lexeme ends where it does just if its token is not read together with others. -/
theorem admits_written_iff (part : Spaced) (later : List Spaced) :
    part.lexeme.Admits (part.gap ++ written (later.map item)) ↔
      (part.gap = [] → part.token.fusesWith (later.map item) = false) := by
  by_cases noGap : part.gap = []
  · rw [noGap, List.nil_append, imp_iff_right rfl]
    cases later with
    | nil => exact iff_of_true (part.lexeme.admits_of_breaks (.inl rfl)) rfl
    | cons next later =>
        rw [written_cons, Lexeme.admits_text_iff _ next.wellFormed, startsWith_isDigit_written,
          ← isInteger_token]
        simp [Token.fusesWith, item, token, Token.ofLexeme]
  · exact iff_of_true (part.lexeme.admits_of_breaks (part.breaks_gap noGap _)) (absurd · noGap)

end Spaced

/-! The cut that is there when every token ends where it was written to end. -/

def cutOf (front : Bytes) (parts : List Spaced) : List Segment :=
  front.map .blank ++ parts.flatMap Spaced.cut

variable {front : Bytes} {parts : List Spaced}

theorem cutOf_cons (front : Bytes) (part : Spaced) (later : List Spaced) :
    cutOf front (part :: later) =
      front.map .blank ++ .lexeme part.lexeme :: cutOf part.gap later := rfl

theorem flatMap_text_map_blank (bytes : Bytes) :
    (bytes.map Segment.blank).flatMap Segment.text = bytes := by
  induction bytes with
  | nil => rfl
  | cons byte bytes ih => simp [Segment.text, ih]

theorem flatMap_text_cutOf (front : Bytes) (parts : List Spaced) :
    (cutOf front parts).flatMap Segment.text = front ++ written (parts.map Spaced.item) := by
  induction parts generalizing front with
  | nil => simp [cutOf, written, flatMap_text_map_blank]
  | cons part later ih =>
      rw [cutOf_cons, List.flatMap_append, List.flatMap_cons, flatMap_text_map_blank, ih,
        Spaced.written_cons]
      rfl

theorem standing_map_blank_append {bytes : Bytes} (blank : ∀ byte ∈ bytes, isBlank byte = true)
    (rest : List Segment) : Standing (bytes.map .blank ++ rest) ↔ Standing rest := by
  induction bytes with
  | nil => exact Iff.rfl
  | cons byte bytes ih =>
      rw [List.forall_mem_cons] at blank
      rw [List.map_cons, List.cons_append, Standing, ih blank.2]
      exact and_iff_right ⟨blank.1, trivial⟩

theorem standing_cutOf_iff (blankFront : ∀ byte ∈ front, isBlank byte = true) :
    Standing (cutOf front parts) ↔ KeptApart (parts.map Spaced.item) := by
  induction parts generalizing front with
  | nil =>
      rw [cutOf, standing_map_blank_append blankFront]
      exact iff_of_true trivial keptApart_nil
  | cons part later ih =>
      rw [cutOf_cons, standing_map_blank_append blankFront, Standing, ih part.blank,
        flatMap_text_cutOf, List.map_cons, Spaced.item, keptApart_cons,
        ← Spaced.admits_written_iff]
      exact and_congr_left' ⟨fun stands => stands.admits, fun admits => ⟨part.wellFormed, admits⟩⟩

theorem filterMap_cutOf {α : Type} {ofSegment : Segment → Option α}
    (noBlank : ∀ byte, ofSegment (.blank byte) = none) (front : Bytes) (parts : List Spaced) :
    (cutOf front parts).filterMap ofSegment =
      parts.filterMap fun part => ofSegment (.lexeme part.lexeme) := by
  have skipped (bytes : Bytes) : (bytes.map Segment.blank).filterMap ofSegment = [] := by
    rw [List.filterMap_map]
    exact List.filterMap_eq_nil_iff.mpr fun byte _ => noBlank byte
  induction parts generalizing front with
  | nil => simp [cutOf, skipped]
  | cons part later ih =>
      rw [cutOf_cons, List.filterMap_append, skipped, List.nil_append, List.filterMap_cons,
        List.filterMap_cons, ih]

/-! The converse.  A comment or a fault would take up bytes that are no blanks, but
the lexemes leave none of them. -/

/-- How many bytes of a text are no blanks. -/
def solidCount (text : Bytes) : Nat :=
  text.countP fun byte => !isBlank byte

theorem solidCount_append (first second : Bytes) :
    solidCount (first ++ second) = solidCount first + solidCount second :=
  List.countP_append

theorem solidCount_of_blank {bytes : Bytes} (blank : ∀ byte ∈ bytes, isBlank byte = true) :
    solidCount bytes = 0 := by
  apply List.countP_eq_zero.mpr
  intro byte member
  rw [blank byte member]
  decide

theorem solidCount_written (parts : List Spaced) :
    solidCount (written (parts.map Spaced.item)) =
      solidCount ((parts.map Spaced.lexeme).flatMap Lexeme.text) := by
  induction parts with
  | nil => rfl
  | cons part later ih =>
      rw [Spaced.written_cons, List.map_cons, List.flatMap_cons, solidCount_append,
        solidCount_append, solidCount_append, solidCount_of_blank part.blank, ih, Nat.zero_add]

namespace Segment

/-- The bytes of a segment that are neither blank nor in a lexeme. -/
def wasteCount (segment : Segment) : Nat :=
  match segment.lexeme? with
  | some _ => 0
  | none => solidCount segment.text

theorem wasteCount_ne_zero {segment : Segment} {byte : UInt8} (noLexeme : segment.lexeme? = none)
    (member : byte ∈ segment.text) (notBlank : isBlank byte = false) : segment.wasteCount ≠ 0 := by
  rw [wasteCount, noLexeme]
  apply Nat.ne_of_gt
  exact List.countP_pos_iff.mpr ⟨byte, member, by rw [notBlank]; rfl⟩

theorem laid_of_wasteCount {segment : Segment} (wellFormed : segment.WellFormed)
    (noWaste : segment.wasteCount = 0) :
    (∃ byte, isBlank byte = true ∧ segment = .blank byte) ∨ ∃ part, segment = .lexeme part := by
  cases segment with
  | blank byte => exact .inl ⟨byte, wellFormed, rfl⟩
  | lexeme part => exact .inr ⟨part, rfl⟩
  | stray byte =>
      exact absurd noWaste (wasteCount_ne_zero rfl (List.mem_singleton.mpr rfl) wellFormed.1)
  | _ => exact absurd noWaste (wasteCount_ne_zero rfl List.mem_cons_self rfl)

end Segment

theorem solidCount_flatMap_text (cut : List Segment) :
    solidCount (cut.flatMap Segment.text) =
      solidCount ((cut.filterMap Segment.lexeme?).flatMap Lexeme.text) +
        (cut.map Segment.wasteCount).sum := by
  induction cut with
  | nil => rfl
  | cons segment rest ih =>
      rw [List.flatMap_cons, solidCount_append, ih, List.map_cons, List.sum_cons,
        List.filterMap_cons, Segment.wasteCount]
      cases segment with
      | lexeme part =>
          simp only [Segment.lexeme?, List.flatMap_cons, solidCount_append, Segment.text]
          omega
      | _ =>
          simp only [Segment.lexeme?]
          omega

/-- Blanks and lexemes are laid out in one way only. -/
theorem eq_cutOf {cut : List Segment} (blankFront : ∀ byte ∈ front, isBlank byte = true)
    (laid : ∀ segment ∈ cut,
      (∃ byte, isBlank byte = true ∧ segment = .blank byte) ∨ ∃ part, segment = .lexeme part)
    (together : cut.flatMap Segment.text = front ++ written (parts.map Spaced.item))
    (sameLexemes : cut.filterMap Segment.lexeme? = parts.map Spaced.lexeme) :
    cut = cutOf front parts := by
  induction cut generalizing front parts with
  | nil =>
      have noParts : parts = [] := List.map_eq_nil_iff.mp sameLexemes.symm
      have noFront : front = [] := (List.append_eq_nil_iff.mp together.symm).1
      rw [noParts, noFront]
      rfl
  | cons segment rest ih =>
      rw [List.forall_mem_cons] at laid
      have begins := congrArg (startsWith isBlank) together
      obtain ⟨byte, isBlankByte, rfl⟩ | ⟨lexeme, rfl⟩ := laid.1
      · cases front with
        | nil =>
            cases parts with
            | nil => cases together
            | cons part later =>
                rw [List.nil_append, Spaced.written_cons,
                  Lexeme.startsWith_isBlank part.wellFormed] at begins
                exact absurd isBlankByte (Bool.eq_false_iff.mp begins)
        | cons first front =>
            obtain ⟨same, tail⟩ := List.cons.inj together
            rw [List.forall_mem_cons] at blankFront
            rw [ih blankFront.2 laid.2 tail sameLexemes, same]
            rfl
      · cases parts with
        | nil => cases sameLexemes
        | cons part later =>
            obtain ⟨same, sameLater⟩ := List.cons.inj sameLexemes
            subst same
            cases front with
            | nil =>
                have tail : rest.flatMap Segment.text =
                    part.gap ++ written (later.map Spaced.item) := by
                  apply List.append_cancel_left
                  rw [List.nil_append, Spaced.written_cons] at together
                  exact together
                rw [cutOf_cons, ih part.blank laid.2 tail sameLater]
                rfl
            | cons first front =>
                rw [List.flatMap_cons, Segment.text, Lexeme.startsWith_isBlank part.wellFormed,
                  List.cons_append, startsWith_cons, blankFront first List.mem_cons_self] at begins
                cases begins

theorem segments_eq_cutOf {source : Bytes} (blankFront : ∀ byte ∈ front, isBlank byte = true)
    (whole : source = front ++ written (parts.map Spaced.item))
    (sameLexemes : lexemes source = parts.map Spaced.lexeme) :
    segments source = cutOf front parts := by
  have together := flatMap_text_segments source
  have counted := solidCount_flatMap_text (segments source)
  have solid : solidCount source = solidCount ((parts.map Spaced.lexeme).flatMap Lexeme.text) := by
    rw [whole, solidCount_append, solidCount_of_blank blankFront, solidCount_written, Nat.zero_add]
  have noWaste : ((segments source).map Segment.wasteCount).sum = 0 := by
    rw [← lexemes, sameLexemes, together, solid] at counted
    omega
  refine eq_cutOf blankFront ?_ (together.trans whole) sameLexemes
  intro segment member
  apply Segment.laid_of_wasteCount (wellFormed_of_mem_segments member)
  exact List.sum_eq_zero_iff.mp noWaste _ (List.mem_map_of_mem member)

/-! From tokens to the lexemes they were read from. -/

theorem segments_text {part : Lexeme} (wellFormed : part.WellFormed) :
    segments part.text = [.lexeme part] := by
  have stands : (Segment.lexeme part).Stands [] :=
    ⟨wellFormed, part.admits_of_breaks (.inl rfl)⟩
  have alone := segments_text_append stands
  rw [List.append_nil, segments_nil] at alone
  exact alone

/-- No text is that of two lexemes. -/
theorem Lexeme.eq_of_text_eq {part other : Lexeme} (wellFormed : part.WellFormed)
    (wellFormedOther : other.WellFormed) (same : part.text = other.text) : part = other := by
  have cut := segments_text wellFormed
  rw [same, segments_text wellFormedOther] at cut
  exact (Segment.lexeme.inj (List.singleton_inj.mp cut)).symm

/-- Every lexeme, scanned alone, gives its token back. -/
theorem scan_text {part : Lexeme} (wellFormed : part.WellFormed) :
    scan part.text = ⟨[.ofLexeme part 1, .endOfFile (lineAfter part.text)], []⟩ := by
  rw [scan, placedSegments, segments_text wellFormed]
  rfl

theorem flatMap_lexemes_text {parts : List Lexeme}
    (wellFormed : ∀ part ∈ parts, part.WellFormed) :
    (parts.map Lexeme.text).flatMap lexemes = parts := by
  induction parts with
  | nil => rfl
  | cons part later ih =>
      rw [List.forall_mem_cons] at wellFormed
      rw [List.map_cons, List.flatMap_cons, lexemes, segments_text wellFormed.1, ih wellFormed.2]
      rfl

theorem wellFormed_of_mem_lexemes {source : Bytes} {part : Lexeme}
    (member : part ∈ lexemes source) : part.WellFormed := by
  obtain ⟨segment, inside, shown⟩ := List.mem_filterMap.mp member
  have wellFormed := wellFormed_of_mem_segments inside
  cases segment with
  | lexeme other =>
      rw [← Option.some.inj shown]
      exact wellFormed
  | _ => cases shown

theorem exists_lexeme_of_mem_tokens {source : Bytes} {token : Token}
    (member : token ∈ (scan source).tokens) (notEnd : token.kind ≠ .endOfFile) :
    ∃ part line, part.WellFormed ∧ Token.ofLexeme part line = token := by
  rcases List.mem_append.mp member with inside | last
  · obtain ⟨placed, placedInside, shown⟩ := List.mem_filterMap.mp inside
    have wellFormed := wellFormed_of_mem_segments (mem_segments_of_mem_placedSegments placedInside)
    rw [Placed.token?] at shown
    cases shape : placed.segment with
    | lexeme part =>
        rw [shape] at shown wellFormed
        exact ⟨part, placed.line, wellFormed, Option.some.inj shown⟩
    | _ =>
        rw [shape] at shown
        cases shown
  · rw [List.mem_singleton.mp last] at notEnd
    exact absurd rfl notEnd

theorem exists_spaced {items : List (Token × Bytes)}
    (blankGaps : ∀ item ∈ items, ∀ byte ∈ item.2, isBlank byte = true)
    (scanned : ∀ item ∈ items,
      item.1.kind ≠ .endOfFile ∧ ∃ source, item.1 ∈ (scan source).tokens) :
    ∃ parts : List Spaced, parts.map Spaced.item = items := by
  induction items with
  | nil => exact ⟨[], rfl⟩
  | cons item later ih =>
      rw [List.forall_mem_cons] at blankGaps scanned
      obtain ⟨parts, same⟩ := ih blankGaps.2 scanned.2
      obtain ⟨notEnd, source, member⟩ := scanned.1
      obtain ⟨lexeme, line, wellFormed, sameToken⟩ := exists_lexeme_of_mem_tokens member notEnd
      refine ⟨⟨lexeme, line, item.2, wellFormed, blankGaps.1⟩ :: parts, ?_⟩
      rw [List.map_cons, same, Spaced.item, Spaced.token, sameToken]

theorem lexemes_eq_of_texts {source : Bytes}
    (sameTexts : (lexemes source).map Lexeme.text = (parts.map Spaced.lexeme).map Lexeme.text) :
    lexemes source = parts.map Spaced.lexeme := by
  have wellFormed : ∀ part ∈ parts.map Spaced.lexeme, part.WellFormed := by
    intro lexeme member
    obtain ⟨part, _, rfl⟩ := List.mem_map.mp member
    exact part.wellFormed
  rw [← flatMap_lexemes_text wellFormed, ← sameTexts]
  exact (flatMap_lexemes_text fun _ => wellFormed_of_mem_lexemes).symm

theorem map_content_tokens_iff {source : Bytes} :
    (scan source).tokens.map Token.content =
        (parts.map Spaced.item).map (fun item => item.1.content) ++ [(.endOfFile, [], none)] ↔
      lexemes source = parts.map Spaced.lexeme := by
  have contentOf (part : Lexeme) (line : Nat) :
      (Token.ofLexeme part line).content = (part.kind, part.text, part.literal?) := rfl
  have expected : (parts.map Spaced.item).map (fun item => item.1.content) =
      (parts.map Spaced.lexeme).map fun part => (part.kind, part.text, part.literal?) := by
    rw [List.map_map, List.map_map]
    rfl
  rw [map_tokens contentOf, expected]
  constructor
  · intro same
    have contents := List.append_cancel_right same
    have texts := congrArg (List.map fun content => content.2.1) contents
    rw [List.map_map, List.map_map] at texts
    exact lexemes_eq_of_texts texts
  · intro same
    rw [same]
    rfl

/-- Tokens that are written out again, each with any blanks behind it, are what the scan
gives back just if none of them stands directly before what it is read together with. -/
theorem scan_written_iff (front : Bytes) (items : List (Token × Bytes))
    (blankFront : ∀ byte ∈ front, isBlank byte = true)
    (blankGaps : ∀ item ∈ items, ∀ byte ∈ item.2, isBlank byte = true)
    (scanned : ∀ item ∈ items,
      item.1.kind ≠ .endOfFile ∧ ∃ source, item.1 ∈ (scan source).tokens) :
    ((scan (front ++ written items)).diagnostics = [] ∧
        (scan (front ++ written items)).tokens.map Token.content =
          items.map (fun item => item.1.content) ++ [(.endOfFile, [], none)]) ↔
      KeptApart items := by
  obtain ⟨parts, rfl⟩ := exists_spaced blankGaps scanned
  rw [map_content_tokens_iff, ← standing_cutOf_iff blankFront]
  constructor
  · intro ⟨_, sameLexemes⟩
    rw [← segments_eq_cutOf blankFront rfl sameLexemes]
    exact standing_segments _
  · intro standing
    have cut := segments_eq_iff.mpr ⟨flatMap_text_cutOf front parts, standing⟩
    refine ⟨?_, ?_⟩
    · apply List.map_eq_nil_iff.mp
      rw [map_message_diagnostics, cut, filterMap_cutOf (fun _ => rfl)]
      exact List.filterMap_eq_nil_iff.mpr fun _ _ => rfl
    · rw [lexemes, cut, filterMap_cutOf (fun _ => rfl)]
      exact congrFun List.filterMap_eq_map parts

/-- A blank keeps an integer from the point and the digit behind it. -/
theorem scan_written_integer_and_point :
    (scan (ascii "12 .5\n")).diagnostics = [] ∧
      (scan (ascii "12 .5\n")).tokens.map Token.content =
        [(.number, ascii "12", some (.number (.ofDecimal ⟨12, 0⟩))),
          (.symbol .dot, ascii ".", none),
          (.number, ascii "5", some (.number (.ofDecimal ⟨5, 0⟩))),
          (.endOfFile, [], none)] := by
  have scanned (part : Lexeme) (wellFormed : part.WellFormed) :
      ∃ source, Token.ofLexeme part 1 ∈ (scan source).tokens :=
    ⟨part.text, by rw [scan_text wellFormed]; exact List.mem_cons_self⟩
  have number (digits : Bytes) (someDigits : digits ≠ [])
      (inside : ∀ byte ∈ digits, isDigit byte = true) : (Lexeme.number digits []).WellFormed :=
    ⟨someDigits, inside, by simp⟩
  refine (scan_written_iff []
    [(.ofLexeme (.number (ascii "12") []) 1, ascii " "), (.ofLexeme (.symbol .dot) 1, []),
      (.ofLexeme (.number (ascii "5") []) 1, ascii "\n")] (by simp) ?_ ?_).mpr ?_
  · rw [List.forall_mem_cons, List.forall_mem_cons, List.forall_mem_singleton]
    exact ⟨by decide +kernel, by decide +kernel, by decide +kernel⟩
  · rw [List.forall_mem_cons, List.forall_mem_cons, List.forall_mem_singleton]
    exact ⟨⟨nofun, scanned _ (number _ (by decide) (by decide +kernel))⟩,
      ⟨nofun, scanned _ trivial⟩,
      ⟨nofun, scanned _ (number _ (by decide) (by decide +kernel))⟩⟩
  · rw [keptApart_cons, keptApart_cons, keptApart_cons]
    exact ⟨by decide, by decide, by decide, keptApart_nil⟩

end ScriptLexer
