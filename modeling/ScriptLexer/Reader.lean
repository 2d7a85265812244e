import ScriptLexer.Diagnostic.Collector
import ScriptLexer.Token

namespace ScriptLexer

/-! The reader that works through a source with a cursor, one byte at a time.
It is kept between scans together with all that a scan has left in it.  A step
that would look outside the source gives nothing.
-/

open Byte

/-- The symbol that an equals sign makes of the one in front of it. -/
def Symbol.withEquals? : Symbol → Option Symbol
  | .bang => some .bangEqual
  | .equal => some .equalEqual
  | .greater => some .greaterEqual
  | .less => some .lessEqual
  | _ => none

/-- The value of digits, with or without a point between them: the double nearest to the number
they spell, the even one of two that are equally near, however many digits there are.  This is the
rounding that LLVM documents for `getAsDouble`.  LLVM itself departs from it where more than about
16500 digits follow the point, past the last power of five that its buffer holds; such texts are
rounded here like all others. -/
def Literal.ofDigits? (text : Bytes) : Option Literal :=
  let whole := text.takeWhile isDigit
  let fraction := (text.dropWhile isDigit).drop 1
  if whole ≠ [] ∧ fraction.all isDigit ∧ whole ++ Numeral.pointed fraction = text then
    (Lexeme.number whole fraction).literal?
  else none

structure Reader where
  source : Bytes
  /-- Where the lexeme begins that is being read. -/
  start : Nat
  /-- The offset of the next byte. -/
  current : Nat
  line : Nat
  tokens : List Token
deriving DecidableEq

namespace Reader

def opened (source : Bytes) : Reader where
  source := source
  start := 0
  current := 0
  line := 1
  tokens := []

/-- Forgets all that a scan has left, but not the source. -/
def reset (reader : Reader) : Reader :=
  .opened reader.source

/-- The next lexeme begins at the cursor. -/
def beginLexeme (reader : Reader) : Reader :=
  { reader with start := reader.current }

def atEnd (reader : Reader) : Bool :=
  reader.source.length ≤ reader.current

/-- The next byte, or zero past the end. -/
def peek (reader : Reader) : UInt8 :=
  if inside : reader.current < reader.source.length then reader.source[reader.current] else 0

/-- The byte behind the next one, or zero past the end. -/
def peekNext (reader : Reader) : UInt8 :=
  if inside : reader.current + 1 < reader.source.length then reader.source[reader.current + 1]
  else 0

def advance? (reader : Reader) : Option (UInt8 × Reader) :=
  reader.source[reader.current]?.map fun byte =>
    (byte, { reader with
      current := reader.current + 1
      line := if byte = newline then reader.line + 1 else reader.line })

/-- Takes in the next byte if it is the expected one.  Lines are not counted here. -/
def accept? (reader : Reader) (expected : UInt8) : Option Reader :=
  if reader.source[reader.current]? = some expected then
    some { reader with current := reader.current + 1 }
  else none

theorem advance?_eq_some {reader after : Reader} {byte : UInt8}
    (advanced : reader.advance? = some (byte, after)) :
    reader.source[reader.current]? = some byte ∧ after.source = reader.source ∧
      after.current = reader.current + 1 := by
  obtain ⟨found, here, same⟩ := Option.map_eq_some_iff.mp advanced
  cases same
  exact ⟨here, rfl, rfl⟩

theorem unread_advance?_lt {reader after : Reader} {byte : UInt8}
    (advanced : reader.advance? = some (byte, after)) :
    after.source.length - after.current < reader.source.length - reader.current := by
  obtain ⟨here, source, current⟩ := advance?_eq_some advanced
  obtain ⟨inside, _⟩ := List.getElem?_eq_some_iff.mp here
  rw [source, current]
  omega

def advanceWhile? (reader : Reader) (goesOn : Reader → Bool) : Option Reader :=
  if goesOn reader then
    match _ : reader.advance? with
    | none => none
    | some (_, after) => after.advanceWhile? goesOn
  else some reader
termination_by reader.source.length - reader.current
decreasing_by exact unread_advance?_lt ‹_›

/-- The text from the start of the lexeme up to the cursor. -/
def lexeme? (reader : Reader) : Option Bytes :=
  if reader.start ≤ reader.current ∧ reader.current ≤ reader.source.length then
    some ((reader.source.drop reader.start).take (reader.current - reader.start))
  else none

def push (reader : Reader) (token : Token) : Reader :=
  { reader with tokens := reader.tokens ++ [token] }

/-- Adds a token with the line that the cursor has reached. -/
def addToken? (reader : Reader) (kind : Kind) (literal : Option Literal) : Option Reader :=
  reader.lexeme?.map fun lexeme => reader.push ⟨kind, lexeme, literal, reader.line⟩

def error (reader : Reader) (sink : Collector) (message : Bytes) : Collector :=
  sink.report [⟨reader.line, message⟩]

/-- Reads on behind an opening quote. -/
def scanString? (reader : Reader) (sink : Collector) : Option (Reader × Collector) := do
  let startLine := reader.line
  let closing ← reader.advanceWhile? fun reader => !reader.atEnd && reader.peek != quote
  if closing.atEnd then
    return (closing, closing.error sink Fault.unterminatedString.message)
  else
    let (_, after) ← closing.advance?
    let lexeme ← after.lexeme?
    if 2 ≤ lexeme.length then
      let value := (lexeme.drop 1).take (lexeme.length - 2)
      return (after.push ⟨.string, lexeme, some (.string value), startLine⟩, sink)
    else none

/-- A point belongs to a number only if a digit follows it. -/
def scanFraction? (reader : Reader) : Option Reader :=
  if reader.peek = point ∧ isDigit reader.peekNext then do
    let (_, fraction) ← reader.advance?
    fraction.advanceWhile? fun reader => isDigit reader.peek
  else some reader

/-- Reads on behind the first digit. -/
def scanNumber? (reader : Reader) (sink : Collector) : Option (Reader × Collector) := do
  let whole ← reader.advanceWhile? fun reader => isDigit reader.peek
  let ended ← whole.scanFraction?
  let text ← ended.lexeme?
  match Literal.ofDigits? text with
  | none => return (ended, ended.error sink (ascii "Invalid number literal."))
  | some literal => return (← ended.addToken? .number (some literal), sink)

/-- Reads on behind the first letter. -/
def scanWord? (reader : Reader) : Option Reader := do
  let ended ← reader.advanceWhile? fun reader => isWordByte reader.peek
  let word ← ended.lexeme?
  ended.addToken? (((Keyword.ofText? word).map Kind.keyword).getD .identifier) none

/-- The newline is left for the main loop. -/
def skipLineComment? (reader : Reader) : Option Reader :=
  reader.advanceWhile? fun reader => !reader.atEnd && reader.peek != newline

/-- Reads on behind the opening mark.  The first closing mark ends the comment. -/
def skipBlockComment? (reader : Reader) (sink : Collector) : Option (Reader × Collector) := do
  let closing ← reader.advanceWhile? fun reader =>
    !reader.atEnd && !(reader.peek == star && reader.peekNext == slash)
  if closing.atEnd then
    return (closing, closing.error sink Fault.unterminatedComment.message)
  else
    let (_, slashNext) ← closing.advance?
    let (_, after) ← slashNext.advance?
    return (after, sink)

def scanSlash? (reader : Reader) (sink : Collector) : Option (Reader × Collector) :=
  match reader.accept? slash with
  | some comment => comment.skipLineComment?.map (·, sink)
  | none =>
      match reader.accept? star with
      | some comment => comment.skipBlockComment? sink
      | none => (reader.addToken? (.symbol .slash) none).map (·, sink)

def scanSymbol? (reader : Reader) (mark : Symbol) : Option Reader :=
  match mark.withEquals? with
  | none => reader.addToken? (.symbol mark) none
  | some longer =>
      match reader.accept? equals with
      | some after => after.addToken? (.symbol longer) none
      | none => reader.addToken? (.symbol mark) none

/-- Reads one segment of the source. -/
def scanToken? (reader : Reader) (sink : Collector) : Option (Reader × Collector) := do
  let (byte, after) ← reader.advance?
  match Symbol.ofText? [byte] with
  | some .slash => after.scanSlash? sink
  | some mark => (after.scanSymbol? mark).map (·, sink)
  | none =>
      -- A newline has been counted already.
      if isBlank byte then some (after, sink)
      else if byte = quote then after.scanString? sink
      else if isDigit byte then after.scanNumber? sink
      else if isWordStart byte then after.scanWord?.map (·, sink)
      else some (after, after.error sink Fault.unexpectedCharacter.message)

/-- A reader stays with its source, and never goes back in it. -/
structure Follows (after before : Reader) : Prop where
  source : after.source = before.source
  current : before.current ≤ after.current

namespace Follows

variable {first second third : Reader}

theorem refl (reader : Reader) : reader.Follows reader :=
  ⟨rfl, Nat.le_refl _⟩

theorem trans (later : third.Follows second) (earlier : second.Follows first) :
    third.Follows first :=
  ⟨later.source.trans earlier.source, Nat.le_trans earlier.current later.current⟩

end Follows

variable {reader after : Reader} {sink sinkAfter : Collector}

theorem follows_of_advance? {byte : UInt8} (advanced : reader.advance? = some (byte, after)) :
    after.Follows reader := by
  obtain ⟨_, source, current⟩ := advance?_eq_some advanced
  exact ⟨source, by omega⟩

theorem follows_of_accept? {expected : UInt8} (accepted : reader.accept? expected = some after) :
    after.Follows reader := by
  unfold accept? at accepted
  split at accepted
  · cases accepted
    exact ⟨rfl, Nat.le_succ _⟩
  · cases accepted

theorem follows_of_advanceWhile? {goesOn : Reader → Bool}
    (advanced : reader.advanceWhile? goesOn = some after) : after.Follows reader := by
  fun_induction advanceWhile? reader goesOn with
  | case1 => cases advanced
  | case2 reader _ byte next stepped ih => exact (ih advanced).trans (follows_of_advance? stepped)
  | case3 =>
      cases advanced
      exact .refl _

theorem follows_push (reader : Reader) (token : Token) : (reader.push token).Follows reader :=
  ⟨rfl, Nat.le_refl _⟩

theorem follows_of_addToken? {kind : Kind} {literal : Option Literal}
    (added : reader.addToken? kind literal = some after) : after.Follows reader := by
  obtain ⟨_, _, rfl⟩ := Option.map_eq_some_iff.mp added
  exact follows_push _ _

theorem follows_of_scanString? (scanned : reader.scanString? sink = some (after, sinkAfter)) :
    after.Follows reader := by
  obtain ⟨closing, advanced, scanned⟩ := Option.bind_eq_some_iff.mp scanned
  have behind := follows_of_advanceWhile? advanced
  split at scanned
  · cases scanned
    exact behind
  · obtain ⟨⟨_, closed⟩, closes, scanned⟩ := Option.bind_eq_some_iff.mp scanned
    obtain ⟨lexeme, _, scanned⟩ := Option.bind_eq_some_iff.mp scanned
    split at scanned
    · cases scanned
      exact (follows_push _ _).trans ((follows_of_advance? closes).trans behind)
    · cases scanned

theorem follows_of_scanFraction? (scanned : reader.scanFraction? = some after) :
    after.Follows reader := by
  unfold scanFraction? at scanned
  split at scanned
  · obtain ⟨⟨_, fraction⟩, pointed, scanned⟩ := Option.bind_eq_some_iff.mp scanned
    exact (follows_of_advanceWhile? scanned).trans (follows_of_advance? pointed)
  · cases scanned
    exact .refl _

theorem follows_of_scanNumber? (scanned : reader.scanNumber? sink = some (after, sinkAfter)) :
    after.Follows reader := by
  obtain ⟨whole, advanced, scanned⟩ := Option.bind_eq_some_iff.mp scanned
  obtain ⟨ended, ends, scanned⟩ := Option.bind_eq_some_iff.mp scanned
  have behind := (follows_of_scanFraction? ends).trans (follows_of_advanceWhile? advanced)
  obtain ⟨text, _, scanned⟩ := Option.bind_eq_some_iff.mp scanned
  split at scanned
  · cases scanned
    exact behind
  · obtain ⟨added, adds, scanned⟩ := Option.bind_eq_some_iff.mp scanned
    cases scanned
    exact (follows_of_addToken? adds).trans behind

theorem follows_of_scanWord? (scanned : reader.scanWord? = some after) :
    after.Follows reader := by
  obtain ⟨ended, advanced, scanned⟩ := Option.bind_eq_some_iff.mp scanned
  obtain ⟨word, _, scanned⟩ := Option.bind_eq_some_iff.mp scanned
  exact (follows_of_addToken? scanned).trans (follows_of_advanceWhile? advanced)

theorem follows_of_skipBlockComment?
    (skipped : reader.skipBlockComment? sink = some (after, sinkAfter)) :
    after.Follows reader := by
  obtain ⟨closing, advanced, skipped⟩ := Option.bind_eq_some_iff.mp skipped
  have behind := follows_of_advanceWhile? advanced
  split at skipped
  · cases skipped
    exact behind
  · obtain ⟨⟨_, slashNext⟩, first, skipped⟩ := Option.bind_eq_some_iff.mp skipped
    obtain ⟨⟨_, closed⟩, second, skipped⟩ := Option.bind_eq_some_iff.mp skipped
    cases skipped
    exact (follows_of_advance? second).trans ((follows_of_advance? first).trans behind)

theorem follows_of_scanSlash? (scanned : reader.scanSlash? sink = some (after, sinkAfter)) :
    after.Follows reader := by
  unfold scanSlash? at scanned
  split at scanned
  · rename_i comment accepted
    obtain ⟨ended, skipped, same⟩ := Option.map_eq_some_iff.mp scanned
    cases same
    exact (follows_of_advanceWhile? skipped).trans (follows_of_accept? accepted)
  · split at scanned
    · rename_i comment accepted
      exact (follows_of_skipBlockComment? scanned).trans (follows_of_accept? accepted)
    · obtain ⟨added, adds, same⟩ := Option.map_eq_some_iff.mp scanned
      cases same
      exact follows_of_addToken? adds

theorem follows_of_scanSymbol? {mark : Symbol} (scanned : reader.scanSymbol? mark = some after) :
    after.Follows reader := by
  unfold scanSymbol? at scanned
  split at scanned
  · exact follows_of_addToken? scanned
  · split at scanned
    · rename_i accepted
      exact (follows_of_addToken? scanned).trans (follows_of_accept? accepted)
    · exact follows_of_addToken? scanned

/-- Behind its first byte a segment never ends before that byte. -/
theorem scanToken?_progress (scanned : reader.scanToken? sink = some (after, sinkAfter)) :
    after.source = reader.source ∧ reader.current < after.current := by
  obtain ⟨⟨byte, next⟩, advanced, scanned⟩ := Option.bind_eq_some_iff.mp scanned
  obtain ⟨_, source, current⟩ := advance?_eq_some advanced
  have behind : after.Follows next := by
    simp only at scanned
    split at scanned
    · exact follows_of_scanSlash? scanned
    · obtain ⟨added, adds, same⟩ := Option.map_eq_some_iff.mp scanned
      cases same
      exact follows_of_scanSymbol? adds
    split at scanned
    · cases scanned
      exact .refl _
    split at scanned
    · exact follows_of_scanString? scanned
    split at scanned
    · exact follows_of_scanNumber? scanned
    split at scanned
    · obtain ⟨added, adds, same⟩ := Option.map_eq_some_iff.mp scanned
      cases same
      exact follows_of_scanWord? adds
    · cases scanned
      exact .refl _
  have onwards := behind.current
  exact ⟨behind.source.trans source, by omega⟩

theorem unread_scanToken?_lt (unread : ¬ reader.atEnd)
    (scanned : reader.beginLexeme.scanToken? sink = some (after, sinkAfter)) :
    after.source.length - after.current < reader.source.length - reader.current := by
  have inside : ¬ reader.source.length ≤ reader.current := by simpa [atEnd] using unread
  obtain ⟨source, onwards⟩ := scanToken?_progress scanned
  have sameSource : reader.beginLexeme.source = reader.source := rfl
  have sameCurrent : reader.beginLexeme.current = reader.current := rfl
  rw [source, sameSource]
  omega

/-- The main loop. -/
def scanFrom? (reader : Reader) (sink : Collector) : Option (Reader × Collector) :=
  if _ : reader.atEnd then some (reader, sink)
  else
    match _ : reader.beginLexeme.scanToken? sink with
    | none => none
    | some (after, sinkAfter) => after.scanFrom? sinkAfter
termination_by reader.source.length - reader.current
decreasing_by exact unread_scanToken?_lt ‹_› ‹_›

/-- Reads the whole source, whatever an earlier scan has left in the reader.  The
tokens are handed over, and the reader keeps none of them. -/
def scanTokens? (reader : Reader) (sink : Collector) :
    Option (List Token × Reader × Collector) := do
  let (ended, sinkAfter) ← reader.reset.scanFrom? sink
  return (ended.tokens ++ [.endOfFile ended.line], { ended with tokens := [] }, sinkAfter)

/-- The main loop without the bounds on which its end rests. -/
theorem scanFrom?_eq (reader : Reader) (sink : Collector) :
    reader.scanFrom? sink =
      if reader.atEnd then some (reader, sink)
      else
        (reader.beginLexeme.scanToken? sink).bind fun next => next.1.scanFrom? next.2 := by
  rw [scanFrom?]
  split
  · rfl
  · split
    · rename_i failed
      rw [failed, Option.bind_none]
    · rename_i stepped
      rw [stepped, Option.bind_some]

end Reader

end ScriptLexer
