import Mathlib
import ScriptLexer.Reader

namespace ScriptLexer

open Byte

/-! The reader's program with a record of its moves.  A byte is got only by a look at its offset,
which fails outside the source, and every look, move, slice and loop leaves its mark whether the
run comes to an end or not.  What the recorded program gives is what the reader gives.
-/

/-- What a reader does to its cursor and with it, in the state in which it does so. -/
inductive Move where
  /-- A state that the reader has got into. -/
  | arrives (reader : Reader)
  | looks (reader : Reader) (offset : Nat)
  | advances (reader : Reader)
  /-- The next byte was the expected one. -/
  | accepts (reader : Reader)
  /-- A slice from the start of the lexeme up to the cursor. -/
  | cuts (reader : Reader)
  /-- The two quotes are taken off, which shortens the slice by two. -/
  | unquotes (reader : Reader) (lexeme : Bytes)
  /-- Once through an inner loop. -/
  | turns (before after : Reader)
  /-- Once through the main loop. -/
  | rounds (before after : Reader)
deriving DecidableEq

/-- A run with its moves, which are there also where it has failed. -/
structure Traced (α : Type) where
  moves : List Move
  result? : Option α

namespace Traced

instance : Monad Traced where
  pure value := ⟨[], some value⟩
  bind run next :=
    match run.result? with
    | none => ⟨run.moves, none⟩
    | some value => ⟨run.moves ++ (next value).moves, (next value).result?⟩

section Runs

variable {α β : Type}

def note (move : Move) : Traced Unit := ⟨[move], some ()⟩

def ofOption (result? : Option α) : Traced α := ⟨[], result?⟩

/-- A run together with the fact that it gives what it gives. -/
def attach (run : Traced α) : Traced { value : α // run.result? = some value } :=
  ⟨run.moves, run.result?.attach⟩

@[simp] theorem result?_pure (value : α) : (pure value : Traced α).result? = some value := rfl

@[simp] theorem result?_note (move : Move) : (note move).result? = some () := rfl

@[simp] theorem result?_ofOption (result? : Option α) : (ofOption result?).result? = result? := rfl

@[simp] theorem result?_bind (run : Traced α) (next : α → Traced β) :
    (run >>= next).result? = run.result?.bind fun value => (next value).result? := by
  obtain ⟨moves, result?⟩ := run
  cases result? <;> rfl

theorem result?_bind_pure (run : Traced α) (next : α → β) :
    (run >>= fun value => pure (next value)).result? = run.result?.map next := by
  rw [result?_bind, Option.map_eq_bind]
  rfl

theorem bind_attach (run : Traced α) (next : α → Traced β) :
    (run.attach >>= fun value => next value.1) = run >>= next := by
  obtain ⟨moves, result?⟩ := run
  cases result? <;> rfl

/-- A run of two parts comes to an end only if both do, and its moves are theirs. -/
theorem bind_eq_some {run : Traced α} {next : α → Traced β} {moves : List Move} {value : β}
    (ends : (run >>= next) = ⟨moves, some value⟩) :
    ∃ first between second, run = ⟨first, some between⟩ ∧ next between = ⟨second, some value⟩ ∧
      moves = first ++ second := by
  obtain ⟨first, result?⟩ := run
  cases result? with
  | none => cases ends
  | some between =>
      cases rest : next between with
      | mk second last =>
          have joined : (⟨first ++ (next between).moves, (next between).result?⟩ : Traced β) =
              ⟨moves, some value⟩ :=
            ends
          rw [rest] at joined
          cases joined
          exact ⟨first, between, second, rfl, rest, rfl⟩

theorem bind_pure_eq_some {run : Traced α} {next : α → β} {moves : List Move} {value : β}
    (ends : (run >>= fun between => pure (next between)) = ⟨moves, some value⟩) :
    ∃ between, run = ⟨moves, some between⟩ ∧ next between = value := by
  obtain ⟨first, between, second, ran, given, rfl⟩ := bind_eq_some ends
  cases given
  exact ⟨between, by rw [ran, List.append_nil], rfl⟩

end Runs

/-- The reader is in a new state. -/
def arrive (reader : Reader) : Traced Reader := do
  note (.arrives reader)
  return reader

/-- The byte at an offset, for which nothing is checked. -/
def look (reader : Reader) (offset : Nat) : Traced UInt8 := do
  note (.looks reader offset)
  ofOption reader.source[offset]?

def peek (reader : Reader) : Traced UInt8 :=
  if reader.atEnd then return 0 else look reader reader.current

def peekNext (reader : Reader) : Traced UInt8 :=
  if reader.source.length ≤ reader.current + 1 then return 0
  else look reader (reader.current + 1)

def advance (reader : Reader) : Traced (UInt8 × Reader) := do
  note (.advances reader)
  let (byte, after) ← ofOption reader.advance?
  return (byte, ← arrive after)

def accept (reader : Reader) (expected : UInt8) : Traced (Option Reader) := do
  if reader.atEnd then return none
  else if (← look reader reader.current) = expected then
    note (.accepts reader)
    return some (← arrive { reader with current := reader.current + 1 })
  else return none

def lexeme (reader : Reader) : Traced Bytes := do
  note (.cuts reader)
  ofOption reader.lexeme?

def addToken (reader : Reader) (kind : Kind) (literal : Option Literal) : Traced Reader := do
  let lexeme ← lexeme reader
  arrive (reader.push ⟨kind, lexeme, literal, reader.line⟩)

/-- The next byte is of a class, the zero past the end among them. -/
def sees (inClass : UInt8 → Bool) (reader : Reader) : Traced Bool := do
  return inClass (← peek reader)

/-- There is a next byte, and it is another one. -/
def isBefore (byte : UInt8) (reader : Reader) : Traced Bool := do
  if reader.atEnd then return false else return (← peek reader) != byte

/-- There is a next byte, and it does not begin a closing mark. -/
def isInComment (reader : Reader) : Traced Bool := do
  if reader.atEnd then return false
  else if (← peek reader) == star then return (← peekNext reader) != slash
  else return true

theorem result?_advance (reader : Reader) : (advance reader).result? = reader.advance? := by
  simp [advance, arrive]

def advanceWhile (reader : Reader) (goesOn : Reader → Traced Bool) : Traced Reader := do
  if ← goesOn reader then
    let ⟨(_, after), _⟩ ← (advance reader).attach
    note (.turns reader after)
    advanceWhile after goesOn
  else return reader
termination_by reader.source.length - reader.current
decreasing_by
  rename_i advanced
  rw [result?_advance] at advanced
  exact Reader.unread_advance?_lt advanced

def scanString (reader : Reader) (sink : Collector) : Traced (Reader × Collector) := do
  let startLine := reader.line
  let closing ← advanceWhile reader (isBefore quote)
  if closing.atEnd then
    return (closing, closing.error sink Fault.unterminatedString.message)
  else
    let (_, after) ← advance closing
    let lexeme ← lexeme after
    note (.unquotes after lexeme)
    if 2 ≤ lexeme.length then
      let value := (lexeme.drop 1).take (lexeme.length - 2)
      return (← arrive (after.push ⟨.string, lexeme, some (.string value), startLine⟩), sink)
    else ofOption none

def scanFraction (reader : Reader) : Traced Reader := do
  if (← peek reader) = point then
    if isDigit (← peekNext reader) then
      let (_, fraction) ← advance reader
      advanceWhile fraction (sees isDigit)
    else return reader
  else return reader

def scanNumber (reader : Reader) (sink : Collector) : Traced (Reader × Collector) := do
  let whole ← advanceWhile reader (sees isDigit)
  let ended ← scanFraction whole
  let text ← lexeme ended
  match Literal.ofDigits? text with
  | none => return (ended, ended.error sink (ascii "Invalid number literal."))
  | some literal => return (← addToken ended .number (some literal), sink)

def scanWord (reader : Reader) : Traced Reader := do
  let ended ← advanceWhile reader (sees isWordByte)
  let word ← lexeme ended
  addToken ended (((Keyword.ofText? word).map Kind.keyword).getD .identifier) none

def skipLineComment (reader : Reader) : Traced Reader :=
  advanceWhile reader (isBefore newline)

def skipBlockComment (reader : Reader) (sink : Collector) : Traced (Reader × Collector) := do
  let closing ← advanceWhile reader isInComment
  if closing.atEnd then
    return (closing, closing.error sink Fault.unterminatedComment.message)
  else
    -- The last turn of the loop takes in the closing mark.
    let (_, slashNext) ← advance closing
    let (_, after) ← advance slashNext
    note (.turns closing after)
    return (after, sink)

def scanSlash (reader : Reader) (sink : Collector) : Traced (Reader × Collector) := do
  match ← accept reader slash with
  | some comment => return (← skipLineComment comment, sink)
  | none =>
      match ← accept reader star with
      | some comment => skipBlockComment comment sink
      | none => return (← addToken reader (.symbol .slash) none, sink)

def scanSymbol (reader : Reader) (mark : Symbol) : Traced Reader := do
  match mark.withEquals? with
  | none => addToken reader (.symbol mark) none
  | some longer =>
      match ← accept reader equals with
      | some after => addToken after (.symbol longer) none
      | none => addToken reader (.symbol mark) none

def scanToken (reader : Reader) (sink : Collector) : Traced (Reader × Collector) := do
  let (byte, after) ← advance reader
  match Symbol.ofText? [byte] with
  | some .slash => scanSlash after sink
  | some mark => return (← scanSymbol after mark, sink)
  | none =>
      if isBlank byte then return (after, sink)
      else if byte = quote then scanString after sink
      else if isDigit byte then scanNumber after sink
      else if isWordStart byte then return (← scanWord after, sink)
      else return (after, after.error sink Fault.unexpectedCharacter.message)

section Results

variable {reader : Reader} {sink : Collector}

theorem result?_arrive (reader : Reader) : (arrive reader).result? = some reader := rfl

/-- A peek looks only where there is a byte. -/
theorem result?_peek (reader : Reader) : (peek reader).result? = some reader.peek := by
  rw [peek, Reader.peek]
  by_cases inside : reader.current < reader.source.length
  · simp [Reader.atEnd, inside, Nat.not_le.mpr inside, look]
  · simp [Reader.atEnd, inside, Nat.not_lt.mp inside]

theorem result?_peekNext (reader : Reader) : (peekNext reader).result? = some reader.peekNext := by
  rw [peekNext, Reader.peekNext]
  by_cases inside : reader.current + 1 < reader.source.length
  · simp [inside, Nat.not_le.mpr inside, look]
  · simp [inside, Nat.not_lt.mp inside]

theorem result?_accept (reader : Reader) (expected : UInt8) :
    (accept reader expected).result? = some (reader.accept? expected) := by
  rw [accept, Reader.accept?]
  by_cases inside : reader.current < reader.source.length
  · by_cases same : reader.source[reader.current] = expected
    · simp [Reader.atEnd, inside, Nat.not_le.mpr inside, look, same, arrive]
    · simp [Reader.atEnd, inside, Nat.not_le.mpr inside, look, same]
  · simp [Reader.atEnd, inside, Nat.not_lt.mp inside]

theorem result?_lexeme (reader : Reader) : (lexeme reader).result? = reader.lexeme? := rfl

theorem result?_addToken (reader : Reader) (kind : Kind) (literal : Option Literal) :
    (addToken reader kind literal).result? = reader.addToken? kind literal := by
  simp [addToken, result?_lexeme, result?_arrive, Reader.addToken?, Option.map_eq_bind]

theorem result?_sees (inClass : UInt8 → Bool) (reader : Reader) :
    (sees inClass reader).result? = some (inClass reader.peek) := by
  simp [sees, result?_peek]

theorem result?_isBefore (byte : UInt8) (reader : Reader) :
    (isBefore byte reader).result? = some (!reader.atEnd && reader.peek != byte) := by
  cases ended : reader.atEnd <;> simp [isBefore, ended, result?_peek]

theorem result?_isInComment (reader : Reader) :
    (isInComment reader).result? =
      some (!reader.atEnd && !(reader.peek == star && reader.peekNext == slash)) := by
  cases ended : reader.atEnd with
  | true => simp [isInComment, ended]
  | false =>
      by_cases isStar : reader.peek = star <;>
        simp [isInComment, ended, result?_peek, result?_peekNext, isStar, bne]

theorem advanceWhile_eq (reader : Reader) (goesOn : Reader → Traced Bool) :
    advanceWhile reader goesOn = do
      if ← goesOn reader then
        let (_, after) ← advance reader
        note (.turns reader after)
        advanceWhile after goesOn
      else return reader := by
  rw [advanceWhile]
  congr 1
  funext goes
  cases goes with
  | false => rfl
  | true =>
      exact bind_attach (advance reader) fun next => do
        note (.turns reader next.2)
        advanceWhile next.2 goesOn

theorem result?_advanceWhile {goesOn : Reader → Bool} {asks : Reader → Traced Bool}
    (answers : ∀ reader, (asks reader).result? = some (goesOn reader)) (reader : Reader) :
    (advanceWhile reader asks).result? = reader.advanceWhile? goesOn := by
  fun_induction Reader.advanceWhile? reader goesOn with
  | case1 reader goes failed =>
      rw [advanceWhile_eq]
      simp [answers, goes, result?_advance, failed]
  | case2 reader goes byte after stepped ih =>
      rw [advanceWhile_eq]
      simp [answers, goes, result?_advance, stepped, ih]
  | case3 reader stops =>
      rw [advanceWhile_eq]
      simp [answers, stops]

theorem result?_scanString :
    (scanString reader sink).result? = reader.scanString? sink := by
  simp [scanString, Reader.scanString?, result?_advanceWhile (result?_isBefore quote),
    result?_advance, result?_lexeme, result?_arrive, apply_ite Traced.result?]

theorem result?_scanFraction : (scanFraction reader).result? = reader.scanFraction? := by
  by_cases pointed : reader.peek = point <;> by_cases digit : isDigit reader.peekNext = true <;>
    simp [scanFraction, Reader.scanFraction?, result?_peek, result?_peekNext, result?_advance,
      result?_advanceWhile (result?_sees isDigit), pointed, digit]

theorem result?_scanNumber :
    (scanNumber reader sink).result? = reader.scanNumber? sink := by
  simp only [scanNumber, Reader.scanNumber?, Option.bind_eq_bind, result?_bind,
    result?_advanceWhile (result?_sees isDigit), result?_scanFraction, result?_lexeme]
  refine Option.bind_congr fun whole _ => Option.bind_congr fun ended _ =>
    Option.bind_congr fun text _ => ?_
  cases Literal.ofDigits? text with
  | none => rfl
  | some literal => simp [result?_addToken]

theorem result?_scanWord : (scanWord reader).result? = reader.scanWord? := by
  simp [scanWord, Reader.scanWord?, result?_advanceWhile (result?_sees isWordByte),
    result?_lexeme, result?_addToken]

theorem result?_skipBlockComment :
    (skipBlockComment reader sink).result? = reader.skipBlockComment? sink := by
  simp [skipBlockComment, Reader.skipBlockComment?, result?_advanceWhile result?_isInComment,
    result?_advance, apply_ite Traced.result?]

theorem result?_scanSlash : (scanSlash reader sink).result? = reader.scanSlash? sink := by
  rw [scanSlash, Reader.scanSlash?, result?_bind, result?_accept, Option.bind_some]
  cases reader.accept? slash with
  | some comment =>
      have skipped : (skipLineComment comment).result? = comment.skipLineComment? :=
        result?_advanceWhile (result?_isBefore newline) comment
      rw [result?_bind_pure, skipped]
  | none =>
      rw [result?_bind, result?_accept, Option.bind_some]
      cases reader.accept? star with
      | some comment => exact result?_skipBlockComment
      | none => rw [result?_bind_pure, result?_addToken]

theorem result?_scanSymbol (mark : Symbol) :
    (scanSymbol reader mark).result? = reader.scanSymbol? mark := by
  rw [scanSymbol, Reader.scanSymbol?]
  cases mark.withEquals? with
  | none => exact result?_addToken _ _ _
  | some longer =>
      rw [result?_bind, result?_accept, Option.bind_some]
      cases reader.accept? equals <;> exact result?_addToken _ _ _

theorem result?_scanToken : (scanToken reader sink).result? = reader.scanToken? sink := by
  rw [scanToken, Reader.scanToken?, result?_bind, result?_advance]
  refine Option.bind_congr fun next _ => ?_
  obtain ⟨byte, after⟩ := next
  dsimp only
  cases Symbol.ofText? [byte] with
  | some mark =>
      cases mark with
      | slash => exact result?_scanSlash
      | _ => rw [result?_bind_pure, result?_scanSymbol]
  | none =>
      simp only [apply_ite Traced.result?, result?_pure, result?_bind_pure, result?_scanString,
        result?_scanNumber, result?_scanWord]

end Results

/-- The main loop. -/
def scanFrom (reader : Reader) (sink : Collector) : Traced (Reader × Collector) := do
  if _ : reader.atEnd then return (reader, sink)
  else
    note (.arrives reader.beginLexeme)
    let ⟨(after, sinkAfter), _⟩ ← (scanToken reader.beginLexeme sink).attach
    note (.rounds reader after)
    scanFrom after sinkAfter
termination_by reader.source.length - reader.current
decreasing_by
  rename_i unread scanned
  rw [result?_scanToken] at scanned
  exact Reader.unread_scanToken?_lt unread scanned

def scanTokens (reader : Reader) (sink : Collector) :
    Traced (List Token × Reader × Collector) := do
  let fresh ← arrive reader.reset
  let (ended, sinkAfter) ← scanFrom fresh sink
  let used ← arrive { ended with tokens := [] }
  return (ended.tokens ++ [.endOfFile ended.line], used, sinkAfter)

theorem scanFrom_eq (reader : Reader) (sink : Collector) :
    scanFrom reader sink = (do
      if reader.atEnd then return (reader, sink)
      else
        note (.arrives reader.beginLexeme)
        let (after, sinkAfter) ← scanToken reader.beginLexeme sink
        note (.rounds reader after)
        scanFrom after sinkAfter) := by
  rw [scanFrom]
  split
  · rfl
  · exact congrArg (note (.arrives reader.beginLexeme) >>= ·) <| funext fun _ =>
      bind_attach (scanToken reader.beginLexeme sink) fun next => do
        note (.rounds reader next.1)
        scanFrom next.1 next.2

theorem result?_scanFrom (reader : Reader) (sink : Collector) :
    (scanFrom reader sink).result? = reader.scanFrom? sink := by
  fun_induction Reader.scanFrom? reader sink with
  | case1 reader sink ended =>
      rw [scanFrom_eq]
      simp [ended]
  | case2 reader sink unread failed =>
      rw [scanFrom_eq]
      simp [unread, result?_scanToken, failed]
  | case3 reader sink unread after sinkAfter scanned ih =>
      rw [scanFrom_eq]
      simp [unread, result?_scanToken, scanned, ih]

/-- The record adds nothing to what a reader does, and takes nothing from it. -/
theorem result?_scanTokens (reader : Reader) (sink : Collector) :
    (scanTokens reader sink).result? = reader.scanTokens? sink := by
  simp [scanTokens, Reader.scanTokens?, result?_arrive, result?_scanFrom]

end Traced

end ScriptLexer
