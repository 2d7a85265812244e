import Mathlib
import ScriptLexer.Proofs.Scan.Places
import ScriptLexer.Proofs.Token.Fusion

namespace ScriptLexer

open Byte

/-! The faults of a script, found byte by byte.  A machine of six modes that knows
nothing of words, numbers or long symbols reports what the scan reports.

The machine looks at no byte twice, so it can be behind the scan: after a slash it
does not yet know that no comment begins, and after a line comment it waits for the
end of the line.  `Mode.Ready` allows for that where a segment ends.
-/

inductive Mode where
  | code | slash | lineComment | block | blockStar | string
deriving DecidableEq

namespace Mode

def codeStep (byte : UInt8) : Mode :=
  if byte = Byte.slash then .slash
  else if byte = quote then .string
  else .code

def step (mode : Mode) (byte : UInt8) : Mode :=
  match mode with
  | .code => codeStep byte
  | .slash =>
      if byte = Byte.slash then .lineComment
      else if byte = star then .block
      else codeStep byte
  | .lineComment => if byte = newline then .code else .lineComment
  | .block => if byte = star then .blockStar else .block
  | .blockStar =>
      if byte = Byte.slash then .code
      else if byte = star then .blockStar
      else .block
  | .string => if byte = quote then .code else .string

/-- Whether the mode takes the byte for a part of the script, and not of a comment
or a string. -/
def readsCode (mode : Mode) (byte : UInt8) : Bool :=
  match mode with
  | .code => true
  | .slash => !isCommentMark byte
  | _ => false

/-- What is wrong with a script that ends in the mode. -/
def openFault? : Mode → Option Fault
  | .string => some .unterminatedString
  | .block => some .unterminatedComment
  | .blockStar => some .unterminatedComment
  | _ => none

end Mode

/-- The bytes that mean nothing outside strings and comments. -/
def isForeign (byte : UInt8) : Bool :=
  !(isWordByte byte || isBlank byte || (ascii "()\x7b\x7d,.-+;*!=<>/\"").contains byte)

/-- What is reported on a text that stands behind `front`, from a mode on. -/
def watch (mode : Mode) (front : Bytes) : Bytes → List Diagnostic
  | [] => (mode.openFault?.map (Diagnostic.ofFault · (lineAfter front))).toList
  | byte :: rest =>
      (if mode.readsCode byte && isForeign byte then
        [Diagnostic.ofFault .unexpectedCharacter (lineAfter front)] else []) ++
        watch (mode.step byte) (front ++ [byte]) rest

variable {front rest : Bytes}

theorem watch_cons_of_silent {mode : Mode} {byte : UInt8}
    (silent : (mode.readsCode byte && isForeign byte) = false) :
    watch mode front (byte :: rest) = watch (mode.step byte) (front ++ [byte]) rest := by
  rw [watch, silent]
  rfl

/-- A mode that keeps to itself runs through a text. -/
theorem watch_append_of_stays {mode : Mode} {text : Bytes}
    (silent : ∀ byte ∈ text, (mode.readsCode byte && isForeign byte) = false)
    (stays : ∀ byte ∈ text, mode.step byte = mode) :
    watch mode front (text ++ rest) = watch mode (front ++ text) rest := by
  induction text generalizing front with
  | nil => rw [List.nil_append, List.append_nil]
  | cons byte text ih =>
      rw [List.forall_mem_cons] at silent stays
      rw [List.cons_append, watch_cons_of_silent silent.1, stays.1, ih silent.2 stays.2,
        List.append_assoc, List.singleton_append]

/-- A comment that is not closed stays one, whether a star came last or not. -/
theorem watch_append_of_unclosed {mode : Mode} {body : Bytes}
    (unclosed : mode = .block ∧ ¬ [star, slash] <:+: body ∨
      mode = .blockStar ∧ ¬ [star, slash] <:+: star :: body) :
    ∃ after, (after = .block ∨ after = .blockStar) ∧
      watch mode front (body ++ rest) = watch after (front ++ body) rest := by
  induction body generalizing mode front with
  | nil =>
      refine ⟨mode, unclosed.imp And.left And.left, ?_⟩
      rw [List.nil_append, List.append_nil]
  | cons byte body ih =>
      have here : ¬ [star, slash] <:+: byte :: body := by
        rcases unclosed with ⟨_, open'⟩ | ⟨_, open'⟩
        · exact open'
        · rw [Segment.mark_infix_cons_iff, not_or] at open'
          exact open'.2
      have next : mode.step byte = if byte = star then .blockStar else .block := by
        rcases unclosed with ⟨rfl, _⟩ | ⟨rfl, open'⟩
        · rfl
        · rw [Segment.mark_infix_cons_iff, not_or] at open'
          have notClosed : byte ≠ slash := by simpa using open'.1
          simp [Mode.step, notClosed]
      have silent : (mode.readsCode byte && isForeign byte) = false := by
        rcases unclosed with ⟨rfl, _⟩ | ⟨rfl, _⟩ <;> rfl
      have later : mode.step byte = .block ∧ ¬ [star, slash] <:+: body ∨
          mode.step byte = .blockStar ∧ ¬ [star, slash] <:+: star :: body := by
        rw [next]
        by_cases isStar : byte = star
        · subst isStar
          exact .inr ⟨rfl, here⟩
        · rw [Segment.mark_infix_cons_iff, not_or] at here
          exact .inl ⟨if_neg isStar, here.2⟩
      obtain ⟨after, inside, same⟩ : ∃ after, (after = .block ∨ after = .blockStar) ∧
          watch (mode.step byte) (front ++ [byte]) (body ++ rest) =
            watch after (front ++ [byte] ++ body) rest := ih later
      refine ⟨after, inside, ?_⟩
      rw [List.cons_append, watch_cons_of_silent silent, same, List.append_assoc,
        List.singleton_append]

/-- The modes from which a text is watched as from code. -/
def Mode.Ready (mode : Mode) (rest : Bytes) : Prop :=
  match mode with
  | .code => True
  | .slash => startsWith isCommentMark rest = false
  | .lineComment => rest = [] ∨ startsWith (· == newline) rest = true
  | _ => False

theorem watch_of_ready {mode : Mode} (ready : mode.Ready rest) :
    watch mode front rest = watch .code front rest := by
  cases mode with
  | code => rfl
  | slash =>
      cases rest with
      | nil => rfl
      | cons byte after =>
          have noMark : isCommentMark byte = false := ready
          have different : byte ≠ slash ∧ byte ≠ star := by simpa [isCommentMark] using noMark
          simp [watch, Mode.readsCode, Mode.step, noMark, different.1, different.2]
  | lineComment =>
      cases rest with
      | nil => rfl
      | cons byte after =>
          have ends : byte = newline := by simpa [Mode.Ready] using ready
          subst ends
          rfl
  | block | blockStar | string => exact ready.elim

theorem code_step_of_ne {byte : UInt8} (notSlash : byte ≠ slash) (notQuote : byte ≠ quote) :
    Mode.code.step byte = .code := by
  simp [Mode.step, Mode.codeStep, notSlash, notQuote]

/-- A byte that code takes in without a report and without leaving its mode. -/
def Passive (byte : UInt8) : Prop :=
  isForeign byte = false ∧ byte ≠ slash ∧ byte ≠ quote

theorem watch_append_of_passive {text : Bytes} (passive : ∀ byte ∈ text, Passive byte) :
    watch .code front (text ++ rest) = watch .code (front ++ text) rest := by
  apply watch_append_of_stays
  · intro byte member
    rw [(passive byte member).1, Bool.and_false]
  · intro byte member
    obtain ⟨_, notSlash, notQuote⟩ := passive byte member
    exact code_step_of_ne notSlash notQuote

theorem passive_of_inClass {inClass : UInt8 → Bool} {byte : UInt8} (member : inClass byte = true)
    (known : isForeign byte = false) (noSlash : inClass slash = false)
    (noQuote : inClass quote = false) : Passive byte := by
  refine ⟨known, ?_, ?_⟩
  · intro same
    subst same
    exact Bool.false_ne_true (noSlash.symm.trans member)
  · intro same
    subst same
    exact Bool.false_ne_true (noQuote.symm.trans member)

theorem passive_of_isWordByte {byte : UInt8} (wordByte : isWordByte byte = true) : Passive byte :=
  passive_of_inClass wordByte (by simp [isForeign, wordByte]) rfl rfl

theorem passive_of_isBlank {byte : UInt8} (blank : isBlank byte = true) : Passive byte :=
  passive_of_inClass blank (by simp [isForeign, blank]) rfl rfl

theorem passive_of_mem_symbol {mark : Symbol} (notSlash : mark ≠ .slash) :
    ∀ byte ∈ mark.text, Passive byte := by
  unfold Passive
  cases mark with
  | slash => exact absurd rfl notSlash
  | _ => decide +kernel

theorem passive_of_mem_number {whole fraction : Bytes}
    (wellFormed : (Lexeme.number whole fraction).WellFormed) :
    ∀ byte ∈ (Lexeme.number whole fraction).text, Passive byte := by
  obtain ⟨_, digits, behindPoint⟩ := wellFormed
  have pointPassive : Passive point := ⟨rfl, by decide, by decide⟩
  intro byte member
  rcases List.mem_append.mp member with inWhole | behind
  · exact passive_of_isWordByte (isWordByte_of_isDigit (digits byte inWhole))
  · cases fraction with
    | nil => cases behind
    | cons digit fraction =>
        rcases List.mem_cons.mp behind with isPoint | inFraction
        · exact isPoint ▸ pointPassive
        · exact passive_of_isWordByte (isWordByte_of_isDigit (behindPoint byte inFraction))

theorem isForeign_of_stray {byte : UInt8} (wellFormed : (Segment.stray byte).WellFormed) :
    isForeign byte = true := by
  obtain ⟨notBlank, notDigit, notLetter, notQuote, alone⟩ := wellFormed
  have spelled : ∀ byte ∈ ascii "()\x7b\x7d,.-+;*!=<>/\"",
      byte = quote ∨ Symbol.ofText? [byte] ≠ none := by decide +kernel
  have notListed : byte ∉ ascii "()\x7b\x7d,.-+;*!=<>/\"" := by
    intro member
    rcases spelled byte member with isQuote | isSymbol
    · exact notQuote isQuote
    · exact isSymbol alone
  simp [isForeign, isWordByte, notBlank, notDigit, notLetter, notListed]

theorem watch_line_mark (front rest : Bytes) :
    watch .code front (slash :: slash :: rest) =
      watch .lineComment (front ++ [slash, slash]) rest := by
  rw [watch_cons_of_silent rfl, watch_cons_of_silent rfl, List.append_assoc]
  rfl

theorem watch_block_mark (front rest : Bytes) :
    watch .code front (slash :: star :: rest) = watch .block (front ++ [slash, star]) rest := by
  rw [watch_cons_of_silent rfl, watch_cons_of_silent rfl, List.append_assoc]
  rfl

theorem watch_open_quote {body : Bytes} (unquoted : quote ∉ body) :
    watch .code front (quote :: body ++ rest) = watch .string (front ++ quote :: body) rest := by
  have stays : ∀ byte ∈ body, Mode.string.step byte = .string := by
    intro byte member
    have inside : byte ≠ quote := ne_of_mem_of_not_mem member unquoted
    simp [Mode.step, inside]
  rw [List.cons_append, watch_cons_of_silent rfl, List.append_cons front quote body]
  exact watch_append_of_stays (fun _ _ => rfl) stays

theorem watch_open_line {body : Bytes} (oneLine : newline ∉ body) :
    watch .code front (slash :: slash :: body ++ rest) =
      watch .lineComment (front ++ slash :: slash :: body) rest := by
  have stays : ∀ byte ∈ body, Mode.lineComment.step byte = .lineComment := by
    intro byte member
    have inside : byte ≠ newline := ne_of_mem_of_not_mem member oneLine
    simp [Mode.step, inside]
  rw [List.cons_append, List.cons_append, watch_line_mark,
    watch_append_of_stays (fun _ _ => rfl) stays, List.append_assoc]
  rfl

theorem watch_open_block (front rest : Bytes) {body : Bytes}
    (unclosed : ¬ [star, slash] <:+: body) :
    ∃ mode, (mode = .block ∨ mode = .blockStar) ∧
      watch .code front (slash :: star :: body ++ rest) =
        watch mode (front ++ slash :: star :: body) rest := by
  obtain ⟨mode, inside, same⟩ : ∃ mode, (mode = .block ∨ mode = .blockStar) ∧
      watch .block (front ++ [slash, star]) (body ++ rest) =
        watch mode (front ++ [slash, star] ++ body) rest :=
    watch_append_of_unclosed (.inl ⟨rfl, unclosed⟩)
  refine ⟨mode, inside, ?_⟩
  rw [List.cons_append, List.cons_append, watch_block_mark, same,
    List.append_assoc]
  rfl

/-- Strings and the slash apart, no lexeme leaves the mode. -/
theorem passive_of_mem_lexeme {part : Lexeme} (wellFormed : part.WellFormed)
    (notString : part.kind ≠ .string) (notSlash : part ≠ .symbol .slash) :
    ∀ byte ∈ part.text, Passive byte := by
  cases part with
  | symbol mark =>
      apply passive_of_mem_symbol
      intro same
      exact notSlash (congrArg Lexeme.symbol same)
  | word text =>
      obtain ⟨first, tail, rfl, letter, inside⟩ := wellFormed
      rw [Lexeme.text, List.forall_mem_cons]
      exact ⟨passive_of_isWordByte (by simp [isWordByte, letter]),
        fun byte member => passive_of_isWordByte (inside byte member)⟩
  | number whole fraction => exact passive_of_mem_number wellFormed
  | string body => exact absurd rfl notString

theorem watch_lexeme {part : Lexeme} (stands : (Segment.lexeme part).Stands rest) :
    watch .code front (part.text ++ rest) = watch .code (front ++ part.text) rest := by
  obtain ⟨wellFormed, admits⟩ := stands
  by_cases isString : part.kind = .string
  · obtain ⟨body, rfl⟩ := Lexeme.exists_body_of_kind isString
    have closing : (Lexeme.string body).text ++ rest = quote :: body ++ (quote :: rest) := by
      simp [Lexeme.text]
    rw [closing, watch_open_quote wellFormed, watch_cons_of_silent rfl, List.append_assoc]
    rfl
  · by_cases isSlash : part = .symbol .slash
    · subst isSlash
      have ready : Mode.slash.Ready rest := admits
      have spelled : (Lexeme.symbol .slash).text = [slash] := rfl
      rw [spelled, List.singleton_append, watch_cons_of_silent rfl, ← watch_of_ready ready]
      rfl
    · exact watch_append_of_passive (passive_of_mem_lexeme wellFormed isString isSlash)

/-- A segment is watched from code to code, and reported as the scan reports it. -/
theorem watch_segment {segment : Segment} (stands : segment.Stands rest) :
    watch .code front (segment.text ++ rest) =
      (segment.fault?.map (Diagnostic.ofFault · (lineAfter (front ++ segment.text)))).toList ++
        watch .code (front ++ segment.text) rest := by
  cases segment with
  | blank byte =>
      apply watch_append_of_passive
      intro other member
      rw [List.mem_singleton.mp member]
      exact passive_of_isBlank stands.wellFormed
  | lineComment body =>
      have ready : Mode.lineComment.Ready rest := stands.admits
      rw [Segment.text, watch_open_line stands.wellFormed, watch_of_ready ready]
      rfl
  | blockComment body =>
      obtain ⟨mode, inside, same⟩ :=
        watch_open_block front (star :: slash :: rest) stands.wellFormed
      have closing : (Segment.blockComment body).text ++ rest =
          slash :: star :: body ++ (star :: slash :: rest) := by
        simp [Segment.text]
      have text : front ++ (Segment.blockComment body).text =
          front ++ slash :: star :: body ++ [star] ++ [slash] := by
        simp [Segment.text]
      rw [closing, same, text]
      rcases inside with rfl | rfl
      · rw [watch_cons_of_silent rfl, watch_cons_of_silent rfl]
        rfl
      · rw [watch_cons_of_silent rfl, watch_cons_of_silent rfl]
        rfl
  | lexeme part => exact watch_lexeme stands
  | stray byte =>
      have foreign := isForeign_of_stray stands.wellFormed
      have notSlash := Segment.ne_slash_of_stray stands.wellFormed
      have notQuote : byte ≠ quote := stands.wellFormed.2.2.2.1
      have noNewline : newlines [byte] = 0 := by
        rw [newlines_eq_zero_iff, List.mem_singleton]
        exact (Segment.ne_newline_of_stray stands.wellFormed).symm
      have sameLine : lineAfter (front ++ [byte]) = lineAfter front := by
        rw [lineAfter_append, noNewline, Nat.add_zero]
      simp [Segment.text, watch, Mode.readsCode, foreign, code_step_of_ne notSlash notQuote,
        Segment.fault?, sameLine]
  | openString body =>
      have ended : rest = [] := stands.admits
      subst ended
      rw [Segment.text, watch_open_quote stands.wellFormed]
      rfl
  | openComment body =>
      have ended : rest = [] := stands.admits
      subst ended
      obtain ⟨mode, inside, same⟩ := watch_open_block front [] stands.wellFormed
      rw [Segment.text, same]
      rcases inside with rfl | rfl <;> rfl

theorem diagnostics_placedFrom (offset : Nat) (front source : Bytes) :
    (placedFrom offset (lineAfter front) (segments source)).filterMap Placed.diagnostic? =
      watch .code front source := by
  induction source using segments_induction generalizing offset front with
  | nil =>
      rw [segments_nil]
      rfl
  | cons first rest ih =>
      obtain ⟨tail, starts, split⟩ := Segment.next_cuts first rest
      have stands := Segment.next_stands first rest
      have whole : first :: rest =
          (Segment.next first rest).1.text ++ (Segment.next first rest).2 := by
        rw [starts, List.cons_append, split]
      rw [segments_cons, whole, watch_segment stands, ← ih, lineAfter_append]
      rw [placedFrom, List.filterMap_cons, Placed.diagnostic?, Placed.endLine]
      cases (Segment.next first rest).1.fault? <;> rfl

/-- The scan reports what the machine reports, in the same order and on the same
lines. -/
theorem diagnostics_eq_watch (source : Bytes) :
    (scan source).diagnostics = watch .code [] source :=
  diagnostics_placedFrom 0 [] source

end ScriptLexer
