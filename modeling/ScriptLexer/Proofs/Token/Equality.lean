import Mathlib
import ScriptLexer.Proofs.Reader.Run
import ScriptLexer.Proofs.Scan.Seam
import ScriptLexer.Proofs.Scan.Spacing

namespace ScriptLexer

/-! Equal runs.  Tokens compare their numbers as numbers, so that one with a NaN is not equal to
itself and one with a zero is equal to one with the other zero.  Neither is seen on tokens that
have been read from a script, where the lexeme says all but the line.
-/

theorem Binary64.equal_self_iff {number : Binary64} :
    number.equal number = true ↔ number.isNaN = false := by
  constructor
  · intro same
    simp only [equal, Bool.and_eq_true, Bool.not_eq_true'] at same
    exact same.1.1.1
  · exact equal_self

theorem Literal.equal_self_iff {literal : Literal} :
    literal.equal literal = true ↔
      ∀ number, literal = .number number → number.isNaN = false := by
  cases literal with
  | string value => simp [equal]
  | number value => simp [equal, Binary64.equal_self_iff]

/-- The number of a lexeme is read from digits, and digits are never a NaN. -/
theorem Lexeme.not_isNaN_of_literal? {part : Lexeme} {number : Binary64}
    (literal : part.literal? = some (.number number)) : number.isNaN = false := by
  cases part with
  | number whole fraction =>
      obtain rfl := Literal.number.inj (Option.some.inj literal)
      exact Binary64.ofDecimal_not_isNaN _
  | symbol mark | word text | string body => cases literal

/-- The lists of tokens that readers give. -/
def IsRun (tokens : List Token) : Prop :=
  ∃ (reader : Reader) (sink : Collector),
    (reader.scanTokens? sink).map Prod.fst = some tokens

namespace Token

def lexemeAndLine (token : Token) : Bytes × Nat :=
  (token.lexeme, token.line)

theorem equal_self_iff {token : Token} :
    token.equal token = true ↔
      ∀ number, token.literal = some (.number number) → number.isNaN = false := by
  obtain ⟨kind, lexeme, literal, line⟩ := token
  cases literal with
  | none => simp [equal]
  | some literal => simp [equal, Literal.equal_self_iff]

theorem lexemeAndLine_eq_of_equal {first second : Token} (same : first.equal second = true) :
    first.lexemeAndLine = second.lexemeAndLine := by
  simp only [equal, Bool.and_eq_true, beq_iff_eq] at same
  exact Prod.ext same.1.1.2 same.2

/-! Tokens of scripts, which need not be the same script. -/

/-- A token that some script gives. -/
def IsScanned (token : Token) : Prop :=
  ∃ source, token ∈ (scan source).tokens

theorem IsScanned.lexeme_or_endOfFile {token : Token} (scanned : token.IsScanned) :
    (∃ part line, part.WellFormed ∧ ofLexeme part line = token) ∨
      ∃ line, endOfFile line = token := by
  obtain ⟨source, member⟩ := scanned
  rcases List.mem_append.mp member with inside | last
  · rw [← body_eq] at inside
    have notEnd : token.kind ≠ .endOfFile := of_decide_eq_true (List.mem_filter.mp inside).2
    exact .inl (exists_lexeme_of_mem_tokens member notEnd)
  · exact .inr ⟨_, (List.mem_singleton.mp last).symm⟩

section

variable {first second : Token} (scanned : first.IsScanned) (scannedSecond : second.IsScanned)
include scanned

theorem IsScanned.equal_self : first.equal first = true := by
  rw [equal_self_iff]
  intro number literal
  obtain ⟨part, line, _, rfl⟩ | ⟨line, rfl⟩ := scanned.lexeme_or_endOfFile
  · exact Lexeme.not_isNaN_of_literal? literal
  · cases literal

include scannedSecond

/-- The lexeme says what a token is, wherever it stands. -/
theorem IsScanned.content_eq (same : first.lexeme = second.lexeme) :
    first.content = second.content := by
  have noText {part : Lexeme} (wellFormed : part.WellFormed) : part.text ≠ [] :=
    @Segment.text_ne_nil_of_wellFormed (.lexeme part) wellFormed
  obtain ⟨part, line, wellFormed, rfl⟩ | ⟨line, rfl⟩ := scanned.lexeme_or_endOfFile
  · obtain ⟨other, _, wellFormedOther, rfl⟩ | ⟨_, rfl⟩ := scannedSecond.lexeme_or_endOfFile
    · have sameLexeme := Lexeme.eq_of_text_eq wellFormed wellFormedOther same
      rw [sameLexeme]
      rfl
    · exact absurd same (noText wellFormed)
  · obtain ⟨other, _, wellFormedOther, rfl⟩ | ⟨_, rfl⟩ := scannedSecond.lexeme_or_endOfFile
    · exact absurd same.symm (noText wellFormedOther)
    · rfl

theorem IsScanned.equal_iff :
    first.equal second = true ↔ first.lexemeAndLine = second.lexemeAndLine := by
  constructor
  · exact lexemeAndLine_eq_of_equal
  · intro same
    obtain ⟨sameLexeme, sameLine⟩ := Prod.mk.inj same
    have sameContent := scanned.content_eq scannedSecond sameLexeme
    have sameToken : first = second := by
      obtain ⟨kind, lexeme, literal, line⟩ := first
      obtain ⟨_, _, _, _⟩ := second
      simp_all [content]
    rw [← sameToken]
    exact scanned.equal_self

end

theorem equalRuns_iff {firsts seconds : List Token} (scanned : ∀ token ∈ firsts, token.IsScanned)
    (scannedSeconds : ∀ token ∈ seconds, token.IsScanned) :
    equalRuns firsts seconds = true ↔
      firsts.map lexemeAndLine = seconds.map lexemeAndLine := by
  induction firsts generalizing seconds with
  | nil => cases seconds <;> simp [equalRuns]
  | cons first firsts ih =>
      cases seconds with
      | nil => simp [equalRuns]
      | cons second seconds =>
          rw [List.forall_mem_cons] at scanned scannedSeconds
          rw [equalRuns, Bool.and_eq_true, scanned.1.equal_iff scannedSeconds.1,
            ih scanned.2 scannedSeconds.2, List.map_cons, List.map_cons, List.cons.injEq]

end Token

open Token

theorem scanTokens?_map_fst (reader : Reader) (sink : Collector) :
    (reader.scanTokens? sink).map Prod.fst = some (scan reader.source).tokens := by
  obtain ⟨used, _, scanned⟩ := reader.scanTokens?_eq sink
  rw [scanned, Option.map_some]

theorem isScanned_of_isRun {tokens : List Token} (run : IsRun tokens) :
    ∀ token ∈ tokens, token.IsScanned := by
  obtain ⟨reader, sink, given⟩ := run
  rw [scanTokens?_map_fst, Option.some.injEq] at given
  intro token member
  exact ⟨reader.source, given ▸ member⟩

/-- Equality is that of the lexemes with their lines. -/
theorem equivalence_equalRuns :
    Equivalence fun firsts seconds : {tokens // IsRun tokens} =>
      equalRuns firsts.1 seconds.1 = true := by
  have same (firsts seconds : {tokens // IsRun tokens}) :
      equalRuns firsts.1 seconds.1 = true ↔
        firsts.1.map lexemeAndLine = seconds.1.map lexemeAndLine :=
    equalRuns_iff (isScanned_of_isRun firsts.2) (isScanned_of_isRun seconds.2)
  simp only [same]
  exact eq_equivalence.comap fun run : {tokens // IsRun tokens} => run.1.map lexemeAndLine

/-- Two runs are equal just if they have the same lexemes on the same lines, whichever readers
give them and whatever for. -/
theorem equalRuns_scanTokens?_iff :
    (∀ (first second : Reader) (sink sinkSecond : Collector), ∃ firsts seconds,
      (first.scanTokens? sink).map Prod.fst = some firsts ∧
        (second.scanTokens? sinkSecond).map Prod.fst = some seconds ∧
        (equalRuns firsts seconds = true ↔
          firsts.map lexemeAndLine = seconds.map lexemeAndLine) ∧
        (∀ token ∈ firsts, ∀ other ∈ seconds, token.lexeme = other.lexeme →
          token.kind = other.kind ∧ token.literal = other.literal) ∧
        (first.source = second.source → equalRuns firsts seconds = true)) ∧
      (Equivalence fun firsts seconds : {tokens // IsRun tokens} =>
        equalRuns firsts.1 seconds.1 = true) ∧
      (∀ token : Token, token.equal token = true ↔
        ∀ number, token.literal = some (.number number) → number.isNaN = false) ∧
      (Binary64.ofBits 0x7FF8000000000000).isNaN = true ∧
      Binary64.ofBits 0 ≠ .ofBits 0x8000000000000000 ∧
      ∀ kind lexeme line,
        Token.equal ⟨kind, lexeme, some (.number (.ofBits 0)), line⟩
          ⟨kind, lexeme, some (.number (.ofBits 0x8000000000000000)), line⟩ = true := by
  refine ⟨?_, equivalence_equalRuns, fun _ => equal_self_iff, by decide, by decide, ?_⟩
  · intro first second sink sinkSecond
    have scanned : ∀ token ∈ (scan first.source).tokens, token.IsScanned :=
      fun token member => ⟨first.source, member⟩
    have scannedSecond : ∀ token ∈ (scan second.source).tokens, token.IsScanned :=
      fun token member => ⟨second.source, member⟩
    refine ⟨_, _, scanTokens?_map_fst first sink, scanTokens?_map_fst second sinkSecond,
      equalRuns_iff scanned scannedSecond, ?_, ?_⟩
    · intro token member other memberOther same
      have contents := (scanned token member).content_eq (scannedSecond other memberOther) same
      exact ⟨congrArg Prod.fst contents, congrArg (fun content => content.2.2) contents⟩
    · intro sameSource
      rw [equalRuns_iff scanned scannedSecond, sameSource]
  · intro kind lexeme line
    have zeros : (Binary64.ofBits 0).equal (.ofBits 0x8000000000000000) = true := by decide
    simp [Token.equal, Literal.equal, zeros]

end ScriptLexer
