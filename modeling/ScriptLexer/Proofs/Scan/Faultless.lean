import Mathlib
import ScriptLexer.Proofs.Scan.Watch

namespace ScriptLexer

open Byte

/-! Scripts without a fault, said without scanning them. -/

/-- Each byte outside strings and comments means something, and each string and each block
comment is closed. -/
inductive Faultless : Bytes → Prop where
  | nil : Faultless []
  | code {byte rest} : isForeign byte = false → byte ≠ quote → byte ≠ slash →
      Faultless rest → Faultless (byte :: rest)
  | slash {rest} : startsWith isCommentMark rest = false →
      Faultless rest → Faultless (slash :: rest)
  | string {body rest} : quote ∉ body →
      Faultless rest → Faultless (quote :: body ++ quote :: rest)
  | lineComment {body rest} : newline ∉ body → (rest = [] ∨ startsWith (· == newline) rest = true) →
      Faultless rest → Faultless (slash :: slash :: body ++ rest)
  | blockComment {body rest} : ¬ [star, slash] <:+: body →
      Faultless rest → Faultless (slash :: star :: body ++ star :: slash :: rest)

namespace Faultless

variable {rest : Bytes}

theorem passive_append {text : Bytes} (passive : ∀ byte ∈ text, Passive byte)
    (behind : Faultless rest) : Faultless (text ++ rest) := by
  induction text with
  | nil => exact behind
  | cons byte text ih =>
      rw [List.forall_mem_cons] at passive
      obtain ⟨⟨known, notSlash, notQuote⟩, later⟩ := passive
      exact code known notQuote notSlash (ih later)

theorem lexeme_append {part : Lexeme} (stands : (Segment.lexeme part).Stands rest)
    (behind : Faultless rest) : Faultless (part.text ++ rest) := by
  obtain ⟨wellFormed, admits⟩ := stands
  by_cases isString : part.kind = .string
  · obtain ⟨body, rfl⟩ := Lexeme.exists_body_of_kind isString
    simpa [Lexeme.text] using string wellFormed behind
  · by_cases isSlash : part = .symbol .slash
    · subst isSlash
      exact slash admits behind
    · exact passive_append (passive_of_mem_lexeme wellFormed isString isSlash) behind

theorem segment_append {segment : Segment} (stands : segment.Stands rest)
    (sound : segment.fault? = none) (behind : Faultless rest) :
    Faultless (segment.text ++ rest) := by
  cases segment with
  | blank byte =>
      apply passive_append _ behind
      intro other member
      rw [List.mem_singleton.mp member]
      exact passive_of_isBlank stands.wellFormed
  | lineComment body => exact lineComment stands.wellFormed stands.admits behind
  | blockComment body => simpa [Segment.text] using blockComment stands.wellFormed behind
  | lexeme part => exact lexeme_append stands behind
  | stray byte | openString body | openComment body => cases sound

/-- A machine that reads such a script has nothing to report. -/
theorem watch_eq_nil {source : Bytes} (faultless : Faultless source) (front : Bytes) :
    watch .code front source = [] := by
  induction faultless generalizing front with
  | nil => rfl
  | code known notQuote notSlash _ ih =>
      rw [← List.singleton_append, watch_append_of_passive]
      · exact ih _
      · intro byte member
        rw [List.mem_singleton.mp member]
        exact ⟨known, notSlash, notQuote⟩
  | slash alone _ ih =>
      have stands : (Segment.lexeme (.symbol .slash)).Stands _ := ⟨trivial, alone⟩
      exact (watch_segment stands).trans (ih _)
  | @string body rest unquoted _ ih =>
      have stands : (Segment.lexeme (.string body)).Stands rest := ⟨unquoted, trivial⟩
      have text : quote :: body ++ quote :: rest =
          (Segment.lexeme (.string body)).text ++ rest := by
        simp [Segment.text, Lexeme.text]
      rw [text, watch_segment stands, ih]
      rfl
  | lineComment oneLine ends _ ih =>
      have stands : (Segment.lineComment _).Stands _ := ⟨oneLine, ends⟩
      exact (watch_segment stands).trans (ih _)
  | @blockComment body rest unclosed _ ih =>
      have stands : (Segment.blockComment body).Stands rest := ⟨unclosed, trivial⟩
      have text : Byte.slash :: star :: body ++ star :: Byte.slash :: rest =
          (Segment.blockComment body).text ++ rest := by
        simp [Segment.text]
      rw [text, watch_segment stands, ih]
      rfl

end Faultless

theorem faultless_of_standing {cut : List Segment} (standing : Standing cut)
    (sound : ∀ segment ∈ cut, segment.fault? = none) : Faultless (cut.flatMap Segment.text) := by
  induction cut with
  | nil => exact .nil
  | cons segment rest ih =>
      rw [List.forall_mem_cons] at sound
      rw [List.flatMap_cons]
      exact Faultless.segment_append standing.1 sound.1 (ih standing.2 sound.2)

theorem diagnostics_eq_nil_iff_segments {source : Bytes} :
    (scan source).diagnostics = [] ↔ ∀ segment ∈ segments source, segment.fault? = none := by
  rw [← List.map_eq_nil_iff (f := Diagnostic.message), map_message_diagnostics,
    List.filterMap_eq_nil_iff]
  simp only [Option.map_eq_none_iff]

/-- Nothing is reported on a script just if it has no fault. -/
theorem diagnostics_eq_nil_iff_faultless {source : Bytes} :
    (scan source).diagnostics = [] ↔ Faultless source := by
  constructor
  · intro none
    have faultless := faultless_of_standing (standing_segments source)
      (diagnostics_eq_nil_iff_segments.mp none)
    rwa [flatMap_text_segments] at faultless
  · intro faultless
    exact (diagnostics_placedFrom 0 [] source).trans (faultless.watch_eq_nil [])

end ScriptLexer
