import Mathlib
import ScriptLexer.Proofs.Console.Report
import ScriptLexer.Proofs.Scan.Spacing

namespace ScriptLexer

open Byte

/-! What is printed can be read back.  Nothing in the print is escaped, and a string may
look like lines of its own.  Still a kind is known by its name, a string by the quote that
closes it and any other lexeme by the blank behind it, so that one line after the other is
told apart from what follows.
-/

namespace Kind

theorem space_notMem_name {kind : Kind} (named : kind ∈ Kind.named) :
    space ∉ ascii kind.name := by
  have all : ∀ kind ∈ Kind.named, space ∉ ascii kind.name := by decide +kernel
  exact all kind named

theorem eq_of_name_eq {first second : Kind} (namedFirst : first ∈ named)
    (namedSecond : second ∈ named) (same : ascii first.name = ascii second.name) :
    first = second := by
  have distinct : (named.map fun kind => ascii kind.name).Nodup := by decide +kernel
  exact List.inj_on_of_nodup_map distinct namedFirst namedSecond same

end Kind

namespace Lexeme

theorem kind_mem_named (part : Lexeme) : part.kind ∈ Kind.named := by
  rcases Kind.mem_named_or_unnamed part.kind with member | ⟨code, beyond, unnamed⟩
  · exact member
  · cases part with
    | word text =>
        rw [kind] at unnamed
        cases found : Keyword.ofText? text <;> simp [found] at unnamed
    | _ => cases unnamed

/-- What stands on the line of a lexeme behind its kind. -/
def shown (part : Lexeme) : Bytes :=
  part.text ++ ((part.literal?.map fun literal => space :: literal.text).getD [] ++ [newline])

theorem display_ofLexeme {part : Lexeme} (wellFormed : part.WellFormed) (line : Nat) :
    (Token.ofLexeme part line).display ++ [newline] =
      ascii part.kind.name ++ space :: part.shown := by
  have fits : (Segment.lexeme part).WellFormed := wellFormed
  have someText : part.text ≠ [] := Segment.text_ne_nil_of_wellFormed fits
  rw [Token.display, Token.ofLexeme, if_neg someText, shown]
  cases part.literal? <;> simp

/-- A string ends at the quote that closes it, and any other lexeme at the first blank. -/
theorem text_append_inj {part other : Lexeme} {rest behind : Bytes}
    (wellFormed : part.WellFormed) (wellFormedOther : other.WellFormed)
    (sameKind : part.kind = other.kind) (blankRest : startsWith isBlank rest = true)
    (blankBehind : startsWith isBlank behind = true)
    (same : part.text ++ rest = other.text ++ behind) : part = other ∧ rest = behind := by
  by_cases isString : part.kind = .string
  · obtain ⟨body, rfl⟩ := exists_body_of_kind isString
    obtain ⟨bodyOther, rfl⟩ := exists_body_of_kind (sameKind.symm.trans isString)
    have closing : body ++ quote :: rest = bodyOther ++ quote :: behind := by
      simpa [text] using same
    have stops (after : Bytes) : startsWith (decide <| · ≠ quote) (quote :: after) = false := by
      simp
    obtain ⟨rfl, sameRest⟩ := append_inj_of_stops (all_ne_of_notMem wellFormed)
      (all_ne_of_notMem wellFormedOther) (stops rest) (stops behind) closing
    exact ⟨rfl, (List.cons.inj sameRest).2⟩
  · have stops {after : Bytes} (blank : startsWith isBlank after = true) :
        startsWith (fun byte => !isBlank byte) after = false := by
      cases after with
      | nil => rfl
      | cons byte after =>
          rw [startsWith_cons] at blank ⊢
          rw [blank]
          rfl
    have inside {lexeme : Lexeme} (fits : lexeme.WellFormed) (noString : lexeme.kind ≠ .string) :
        ∀ byte ∈ lexeme.text, (!isBlank byte) = true := by
      intro byte member
      rw [not_isBlank_of_mem_text fits noString byte member]
      rfl
    obtain ⟨sameText, sameRest⟩ := append_inj_of_stops (inside wellFormed isString)
      (inside wellFormedOther (sameKind ▸ isString)) (stops blankRest) (stops blankBehind) same
    exact ⟨eq_of_text_eq wellFormed wellFormedOther sameText, sameRest⟩

theorem shown_append_inj {part other : Lexeme} {rest behind : Bytes}
    (wellFormed : part.WellFormed) (wellFormedOther : other.WellFormed)
    (sameKind : part.kind = other.kind) (same : part.shown ++ rest = other.shown ++ behind) :
    part = other ∧ rest = behind := by
  have blank (literal : Option Literal) (after : Bytes) : startsWith isBlank
      ((literal.map fun literal => space :: literal.text).getD [] ++ [newline] ++ after) = true := by
    cases literal <;> rfl
  rw [shown, shown, List.append_assoc part.text, List.append_assoc other.text] at same
  obtain ⟨rfl, sameRest⟩ := text_append_inj wellFormed wellFormedOther sameKind
    (blank _ _) (blank _ _) same
  exact ⟨rfl, List.append_cancel_left sameRest⟩

/-- The line that shows the token of a lexeme, wherever it stands. -/
def displayLine (part : Lexeme) : Bytes :=
  (Token.ofLexeme part 1).display ++ [newline]

theorem displayLine_append {part : Lexeme} (wellFormed : part.WellFormed) (rest : Bytes) :
    part.displayLine ++ rest = ascii part.kind.name ++ space :: (part.shown ++ rest) := by
  rw [displayLine, display_ofLexeme wellFormed, List.append_assoc, List.cons_append]

theorem displayLine_append_inj {part other : Lexeme} {rest behind : Bytes}
    (wellFormed : part.WellFormed) (wellFormedOther : other.WellFormed)
    (same : part.displayLine ++ rest = other.displayLine ++ behind) :
    part = other ∧ rest = behind := by
  have inside (lexeme : Lexeme) :
      ∀ byte ∈ ascii lexeme.kind.name, decide (byte ≠ space) = true :=
    all_ne_of_notMem (Kind.space_notMem_name lexeme.kind_mem_named)
  have stops (after : Bytes) : startsWith (decide <| · ≠ space) (space :: after) = false := by
    simp
  rw [displayLine_append wellFormed, displayLine_append wellFormedOther] at same
  obtain ⟨sameName, sameShown⟩ :=
    append_inj_of_stops (inside part) (inside other) (stops _) (stops _) same
  have sameKind := Kind.eq_of_name_eq part.kind_mem_named other.kind_mem_named sameName
  exact shown_append_inj wellFormed wellFormedOther sameKind (List.cons.inj sameShown).2

theorem displayLine_append_ne_endOfFile {part : Lexeme} (wellFormed : part.WellFormed)
    (rest : Bytes) : part.displayLine ++ rest ≠ ascii "EOF\n" := by
  intro same
  have noSpace : space ∉ ascii "EOF\n" := by decide +kernel
  rw [← same, displayLine_append wellFormed] at noSpace
  exact noSpace (List.mem_append_right _ List.mem_cons_self)

theorem flatMap_displayLine_inj {parts others : List Lexeme}
    (wellFormed : ∀ part ∈ parts, part.WellFormed)
    (wellFormedOthers : ∀ part ∈ others, part.WellFormed)
    (same : parts.flatMap displayLine ++ ascii "EOF\n" =
      others.flatMap displayLine ++ ascii "EOF\n") : parts = others := by
  induction parts generalizing others with
  | nil =>
      cases others with
      | nil => rfl
      | cons other others =>
          rw [List.forall_mem_cons] at wellFormedOthers
          rw [List.flatMap_cons, List.append_assoc] at same
          exact absurd same.symm (displayLine_append_ne_endOfFile wellFormedOthers.1 _)
  | cons part parts ih =>
      rw [List.forall_mem_cons] at wellFormed
      cases others with
      | nil =>
          rw [List.flatMap_cons, List.append_assoc] at same
          exact absurd same (displayLine_append_ne_endOfFile wellFormed.1 _)
      | cons other others =>
          rw [List.forall_mem_cons] at wellFormedOthers
          rw [List.flatMap_cons, List.append_assoc, List.flatMap_cons, List.append_assoc] at same
          obtain ⟨rfl, sameLater⟩ :=
            displayLine_append_inj wellFormed.1 wellFormedOthers.1 same
          rw [ih wellFormed.2 wellFormedOthers.2 sameLater]

end Lexeme

theorem displays_tokens_eq_flatMap (source : Bytes) :
    displays (scan source).tokens =
      (lexemes source).flatMap Lexeme.displayLine ++ ascii "EOF\n" := by
  have lines := @map_tokens Bytes (fun token => token.display ++ [newline])
    Lexeme.displayLine (fun _ _ => rfl) source
  have last := displays_endOfFile (lineBehind 1 (segments source))
  rw [displays, List.flatMap_singleton] at last
  rw [displays, List.flatMap_def, lines, List.flatten_append, ← List.flatMap_def,
    List.flatten_singleton, last]

/-- Nothing is displayed of a token but its content. -/
theorem displays_eq_of_content_eq {first second : List Token}
    (same : first.map Token.content = second.map Token.content) :
    displays first = displays second := by
  have shown (tokens : List Token) : displays tokens =
      (tokens.map Token.content).flatMap fun content =>
        Token.display ⟨content.1, content.2.1, content.2.2, 1⟩ ++ [newline] := by
    rw [displays, List.flatMap_map]
    rfl
  rw [shown, same, ← shown]

theorem displays_tokens_eq_iff {first second : Bytes} :
    displays (scan first).tokens = displays (scan second).tokens ↔
      (scan first).tokens.map Token.content = (scan second).tokens.map Token.content := by
  constructor
  · intro same
    rw [displays_tokens_eq_flatMap, displays_tokens_eq_flatMap] at same
    have sameLexemes := Lexeme.flatMap_displayLine_inj (fun _ => wellFormed_of_mem_lexemes)
      (fun _ => wellFormed_of_mem_lexemes) same
    have contentOf (part : Lexeme) (line : Nat) :
        (Token.ofLexeme part line).content = (part.kind, part.text, part.literal?) := rfl
    rw [map_tokens contentOf, map_tokens contentOf, sameLexemes]
    rfl
  · exact displays_eq_of_content_eq

namespace Console

open Transcript

/-- Two files give the same output just if they have the same tokens, apart from the lines
on which these stand. -/
theorem output_runFile_eq_iff (first second : Bytes) (shown shownSecond : Bool) :
    textOn .output (runFile ⟨false, shown⟩ first).transcript =
        textOn .output (runFile ⟨false, shownSecond⟩ second).transcript ↔
      (scan first).tokens.map Token.content = (scan second).tokens.map Token.content := by
  rw [← displays_tokens_eq_iff, textOn_output_runFile, textOn_output_runFile, displays_tokens,
    displays_tokens]
  exact Iff.rfl

/-- A string that looks like the end of the file, with a token behind it. -/
example : textOn .output (runFile {} (ascii "\"\nEOF\" a")).transcript =
    ascii "STRING \"\nEOF\" \nEOF\nIDENTIFIER a\nEOF\n" := by
  decide +kernel

end Console

end ScriptLexer
