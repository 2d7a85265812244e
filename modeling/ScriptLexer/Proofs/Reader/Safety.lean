import Mathlib
import ScriptLexer.Proofs.Reader.Run
import ScriptLexer.Proofs.Reader.Trace

namespace ScriptLexer

open Byte

/-! No move of a reader leaves its source.  What one part of the program does is carried over to
whole runs by `Takes`, which joins two stretches of moves to one; since a run has been shown to
give its tokens, none of its looks can have failed.
-/

/-- The lexeme that is being read lies in the source, and the cursor behind it. -/
structure Reader.Within (reader : Reader) (source : Bytes) : Prop where
  same : reader.source = source
  start : reader.start ≤ reader.current
  current : reader.current ≤ source.length

namespace Move

/-- The offset of the byte that a move takes in. -/
def consumed? : Move → Option Nat
  | .advances reader | .accepts reader => some reader.current
  | _ => none

/-- Once through some loop. -/
def isIteration : Move → Bool
  | .turns _ _ | .rounds _ _ => true
  | _ => false

def Safe (source : Bytes) : Move → Prop
  | .arrives reader | .cuts reader => reader.Within source
  | .looks reader offset => reader.Within source ∧ offset < source.length
  | .advances reader | .accepts reader => reader.Within source ∧ reader.current < source.length
  | .unquotes reader lexeme =>
      reader.Within source ∧ reader.lexeme? = some lexeme ∧ 2 ≤ lexeme.length
  | .turns before after | .rounds before after =>
      before.Within source ∧ after.Within source ∧ before.current < after.current

end Move

/-- Safe moves from one state to another that take in each byte between the two once, in order,
and go through loops at most once for each of these bytes. -/
structure Takes (source : Bytes) (moves : List Move) (before after : Reader) : Prop where
  within : after.Within source
  safe : ∀ move ∈ moves, move.Safe source
  onwards : before.current ≤ after.current
  consumed : moves.filterMap Move.consumed? =
    List.range' before.current (after.current - before.current)
  iterations : moves.countP Move.isIteration ≤ after.current - before.current

/-- There is a byte that no loop has been gone through for. -/
structure Gains (source : Bytes) (moves : List Move) (before after : Reader) : Prop
    extends Takes source moves before after where
  fewer : moves.countP Move.isIteration < after.current - before.current

variable {source : Bytes} {reader before between after : Reader} {moves first second : List Move}
  {move : Move} {sink sinkAfter : Collector}

theorem Takes.refl (stands : reader.Within source) : Takes source [] reader reader where
  within := stands
  safe := List.forall_mem_nil _
  onwards := Nat.le_refl _
  consumed := by simp
  iterations := by simp

theorem Takes.trans (earlier : Takes source first before between)
    (later : Takes source second between after) : Takes source (first ++ second) before after where
  within := later.within
  safe := List.forall_mem_append.mpr ⟨earlier.safe, later.safe⟩
  onwards := Nat.le_trans earlier.onwards later.onwards
  consumed := by
    have middle : between.current = before.current + (between.current - before.current) := by
      have onwards := earlier.onwards
      omega
    have whole : between.current - before.current + (after.current - between.current) =
        after.current - before.current := by
      have onwards := earlier.onwards
      have onwardsLater := later.onwards
      omega
    rw [List.filterMap_append, earlier.consumed, later.consumed, ← whole]
    nth_rewrite 2 [middle]
    exact List.range'_append_1
  iterations := by
    rw [List.countP_append]
    have onwards := earlier.onwards
    have onwardsLater := later.onwards
    have iterations := earlier.iterations
    have iterationsLater := later.iterations
    omega

theorem Gains.trans (earlier : Gains source first before between)
    (later : Takes source second between after) :
    Gains source (first ++ second) before after where
  toTakes := earlier.toTakes.trans later
  fewer := by
    rw [List.countP_append]
    have fewer := earlier.fewer
    have onwards := later.onwards
    have iterations := later.iterations
    omega

theorem Takes.trans_gains (earlier : Takes source first before between)
    (later : Gains source second between after) :
    Gains source (first ++ second) before after where
  toTakes := earlier.trans later.toTakes
  fewer := by
    rw [List.countP_append]
    have onwards := earlier.onwards
    have iterations := earlier.iterations
    have fewer := later.fewer
    omega

/-- A move that takes in no byte. -/
theorem Takes.quiet (stands : after.Within source) (same : after.current = before.current)
    (safe : move.Safe source) (consumes : move.consumed? = none)
    (loops : move.isIteration = false) : Takes source [move] before after where
  within := stands
  safe := List.forall_mem_singleton.mpr safe
  onwards := Nat.le_of_eq same.symm
  consumed := by simp [consumes, same]
  iterations := by simp [loops, same]

/-- The reader is changed, but its cursor stays. -/
theorem Takes.arrives (stands : after.Within source) (same : after.current = before.current) :
    Takes source [.arrives after] before after :=
  have safe : (Move.arrives after).Safe source := stands
  .quiet stands same safe rfl rfl

/-- The cursor goes one byte on. -/
theorem Gains.byte (stands : before.Within source) (inside : before.current < source.length)
    (safe : move.Safe source) (consumes : move.consumed? = some before.current)
    (loops : move.isIteration = false) (source_eq : after.source = before.source)
    (start_eq : after.start = before.start) (current_eq : after.current = before.current + 1) :
    Gains source [move, .arrives after] before after := by
  have start := stands.start
  have within : after.Within source :=
    ⟨source_eq.trans stands.same, by omega, by omega⟩
  have one : after.current - before.current = 1 := by omega
  have arrives : (Move.arrives after).consumed? = none := rfl
  have noLoop : (Move.arrives after).isIteration = false := rfl
  refine ⟨⟨within, ?_, by omega, ?_, ?_⟩, ?_⟩
  · intro other member
    rcases List.mem_pair.mp member with rfl | rfl
    · exact safe
    · exact within
  · rw [one]
    simp [consumes, arrives]
  · simp [loops, noLoop]
  · simp [loops, noLoop, one]

theorem Gains.current_lt (round : Gains source moves before after) :
    before.current < after.current := by
  have fewer := round.fewer
  omega

/-- Once through a loop.  The mark of it is paid for by the byte that no other loop has used. -/
theorem Gains.iterated (once : Gains source moves before after) (safe : move.Safe source)
    (consumes : move.consumed? = none) : Takes source (moves ++ [move]) before after where
  within := once.within
  safe := List.forall_mem_append.mpr ⟨once.safe, List.forall_mem_singleton.mpr safe⟩
  onwards := once.onwards
  consumed := by simp [once.consumed, consumes]
  iterations := by
    have one : [move].countP Move.isIteration ≤ 1 := List.countP_le_length
    rw [List.countP_append]
    have fewer := once.fewer
    omega

theorem Gains.turn (once : Gains source moves before after) (stands : before.Within source) :
    Takes source (moves ++ [.turns before after]) before after :=
  have safe : (Move.turns before after).Safe source := ⟨stands, once.within, once.current_lt⟩
  once.iterated safe rfl

theorem Gains.round (once : Gains source moves before after) (stands : before.Within source) :
    Takes source (moves ++ [.rounds before after]) before after :=
  have safe : (Move.rounds before after).Safe source := ⟨stands, once.within, once.current_lt⟩
  once.iterated safe rfl

namespace Reader

theorem Within.beginLexeme (stands : reader.Within source) : reader.beginLexeme.Within source :=
  ⟨stands.same, Nat.le_refl _, stands.current⟩

theorem Within.push (stands : reader.Within source) (token : Token) :
    (reader.push token).Within source :=
  ⟨stands.same, stands.start, stands.current⟩

end Reader

namespace Traced

variable {byte : UInt8}

theorem takes_arrive_push (stands : reader.Within source) (token : Token)
    (ends : arrive (reader.push token) = ⟨moves, some after⟩) : Takes source moves reader after := by
  cases ends
  exact .arrives (stands.push token) rfl

/-- A look that has got a byte was inside the source. -/
theorem takes_look {offset : Nat} (stands : reader.Within source)
    (ends : look reader offset = ⟨moves, some byte⟩) : Takes source moves reader reader := by
  obtain ⟨_, _, _, noted, found, rfl⟩ := bind_eq_some ends
  cases noted
  obtain ⟨rfl, here⟩ := Traced.mk.inj found
  obtain ⟨inside, _⟩ := List.getElem?_eq_some_iff.mp here
  rw [stands.same] at inside
  exact .quiet stands rfl ⟨stands, inside⟩ rfl rfl

theorem takes_peek (stands : reader.Within source) (ends : peek reader = ⟨moves, some byte⟩) :
    Takes source moves reader reader := by
  unfold peek at ends
  split at ends
  · cases ends
    exact .refl stands
  · exact takes_look stands ends

theorem takes_peekNext (stands : reader.Within source)
    (ends : peekNext reader = ⟨moves, some byte⟩) : Takes source moves reader reader := by
  unfold peekNext at ends
  split at ends
  · cases ends
    exact .refl stands
  · exact takes_look stands ends

theorem gains_advance (stands : reader.Within source)
    (ends : advance reader = ⟨moves, some (byte, after)⟩) : Gains source moves reader after := by
  have advanced : reader.advance? = some (byte, after) := by rw [← result?_advance, ends]
  obtain ⟨found, here, same⟩ := Option.map_eq_some_iff.mp advanced
  cases same
  obtain ⟨inside, _⟩ := List.getElem?_eq_some_iff.mp here
  rw [stands.same] at inside
  rw [advance, advanced] at ends
  cases ends
  exact .byte stands inside ⟨stands, inside⟩ rfl rfl rfl rfl rfl

theorem takes_accept {expected : UInt8} {accepted : Option Reader} (stands : reader.Within source)
    (ends : accept reader expected = ⟨moves, some accepted⟩) :
    Takes source moves reader (accepted.getD reader) := by
  unfold accept at ends
  split at ends
  · cases ends
    exact .refl stands
  · rename_i unread
    obtain ⟨_, byte, _, looked, compared, rfl⟩ := bind_eq_some ends
    have looks := takes_look stands looked
    split at compared
    · cases compared
      have inside : reader.current < source.length := by
        rw [← stands.same]
        simpa [Reader.atEnd] using unread
      have safe : (Move.accepts reader).Safe source := ⟨stands, inside⟩
      have taken : Gains source [.accepts reader, .arrives { reader with
          current := reader.current + 1 }] reader { reader with current := reader.current + 1 } :=
        .byte stands inside safe rfl rfl rfl rfl rfl
      exact looks.trans taken.toTakes
    · cases compared
      exact looks.trans (.refl stands)

theorem takes_lexeme {text : Bytes} (stands : reader.Within source)
    (ends : lexeme reader = ⟨moves, some text⟩) : Takes source moves reader reader := by
  obtain ⟨rfl, _⟩ := Traced.mk.inj ends
  exact .quiet stands rfl stands rfl rfl

theorem takes_addToken {kind : Kind} {literal : Option Literal} (stands : reader.Within source)
    (ends : addToken reader kind literal = ⟨moves, some after⟩) :
    Takes source moves reader after := by
  obtain ⟨_, text, _, sliced, pushed, rfl⟩ := bind_eq_some ends
  exact (takes_lexeme stands sliced).trans (takes_arrive_push stands _ pushed)

theorem takes_sees {inClass : UInt8 → Bool} {answer : Bool} (stands : reader.Within source)
    (ends : sees inClass reader = ⟨moves, some answer⟩) : Takes source moves reader reader := by
  obtain ⟨byte, peeked, _⟩ := bind_pure_eq_some ends
  exact takes_peek stands peeked

theorem takes_isBefore {answer : Bool} (stands : reader.Within source)
    (ends : isBefore byte reader = ⟨moves, some answer⟩) : Takes source moves reader reader := by
  unfold isBefore at ends
  split at ends
  · cases ends
    exact .refl stands
  · obtain ⟨byte, peeked, _⟩ := bind_pure_eq_some ends
    exact takes_peek stands peeked

theorem takes_isInComment {answer : Bool} (stands : reader.Within source)
    (ends : isInComment reader = ⟨moves, some answer⟩) : Takes source moves reader reader := by
  unfold isInComment at ends
  split at ends
  · cases ends
    exact .refl stands
  · obtain ⟨_, byte, _, peeked, asked, rfl⟩ := bind_eq_some ends
    have looks := takes_peek stands peeked
    split at asked
    · obtain ⟨behind, peekedNext, _⟩ := bind_pure_eq_some asked
      exact looks.trans (takes_peekNext stands peekedNext)
    · cases asked
      exact looks.trans (.refl stands)

theorem takes_advanceWhile {goesOn : Reader → Traced Bool}
    (looks : ∀ {reader moves answer}, Reader.Within reader source →
      goesOn reader = ⟨moves, some answer⟩ → Takes source moves reader reader)
    (stands : reader.Within source) (ends : advanceWhile reader goesOn = ⟨moves, some after⟩) :
    Takes source moves reader after := by
  induction unread : source.length - reader.current using Nat.strong_induction_on
    generalizing reader moves with
  | _ count ih =>
      -- What is left of the source gets shorter with every turn.
      rw [advanceWhile_eq] at ends
      obtain ⟨asking, goes, _, asked, once, rfl⟩ := bind_eq_some ends
      have asks := looks stands asked
      cases goes with
      | false =>
          cases once
          exact asks.trans (.refl stands)
      | true =>
          obtain ⟨advancing, ⟨byte, next⟩, _, advanced, turned, rfl⟩ := bind_eq_some once
          obtain ⟨_, _, again, noted, goneOn, rfl⟩ := bind_eq_some turned
          cases noted
          have step := gains_advance stands advanced
          have turn := step.turn stands
          have fewer : source.length - next.current < count := by
            have onwards := step.current_lt
            have inside := step.within.current
            omega
          have later := ih _ fewer step.within goneOn rfl
          simpa only [List.append_assoc] using asks.trans (turn.trans later)

theorem takes_scanString (stands : reader.Within source)
    (ends : scanString reader sink = ⟨moves, some (after, sinkAfter)⟩) :
    Takes source moves reader after := by
  obtain ⟨_, closing, _, looped, behindLoop, rfl⟩ := bind_eq_some ends
  have loop := takes_advanceWhile takes_isBefore stands looped
  split at behindLoop
  · cases behindLoop
    exact loop.trans (.refl loop.within)
  · obtain ⟨_, ⟨byte, closed⟩, _, advanced, behindQuote, rfl⟩ := bind_eq_some behindLoop
    have step := gains_advance loop.within advanced
    obtain ⟨_, lexeme, _, sliced, unquoted, rfl⟩ := bind_eq_some behindQuote
    have slice := takes_lexeme step.within sliced
    refine loop.trans (step.toTakes.trans (slice.trans ?_))
    obtain ⟨_, _, _, noted, valued, rfl⟩ := bind_eq_some unquoted
    cases noted
    split at valued
    · rename_i two
      obtain ⟨pushed, arrived, given⟩ := bind_pure_eq_some valued
      cases given
      have here : closed.lexeme? = some lexeme := by rw [← result?_lexeme, sliced]
      have unquotes : Takes source [.unquotes closed lexeme] closed closed :=
        .quiet step.within rfl ⟨step.within, here, two⟩ rfl rfl
      exact unquotes.trans (takes_arrive_push step.within _ arrived)
    · cases valued

theorem takes_scanFraction (stands : reader.Within source)
    (ends : scanFraction reader = ⟨moves, some after⟩) : Takes source moves reader after := by
  obtain ⟨_, byte, _, peeked, isPoint, rfl⟩ := bind_eq_some ends
  have looks := takes_peek stands peeked
  split at isPoint
  · obtain ⟨_, next, _, peekedNext, isPart, rfl⟩ := bind_eq_some isPoint
    have looksOn := takes_peekNext stands peekedNext
    split at isPart
    · obtain ⟨_, ⟨mark, fraction⟩, _, pointed, looped, rfl⟩ := bind_eq_some isPart
      have step := gains_advance stands pointed
      have loop := takes_advanceWhile takes_sees step.within looped
      exact looks.trans (looksOn.trans (step.toTakes.trans loop))
    · cases isPart
      exact looks.trans (looksOn.trans (.refl stands))
  · cases isPoint
    exact looks.trans (.refl stands)

theorem takes_scanNumber (stands : reader.Within source)
    (ends : scanNumber reader sink = ⟨moves, some (after, sinkAfter)⟩) :
    Takes source moves reader after := by
  obtain ⟨_, whole, _, looped, behindWhole, rfl⟩ := bind_eq_some ends
  have loop := takes_advanceWhile takes_sees stands looped
  obtain ⟨_, ended, _, pointed, behindFraction, rfl⟩ := bind_eq_some behindWhole
  have fraction := takes_scanFraction loop.within pointed
  obtain ⟨_, text, _, sliced, valued, rfl⟩ := bind_eq_some behindFraction
  have slice := takes_lexeme fraction.within sliced
  refine loop.trans (fraction.trans (slice.trans ?_))
  split at valued
  · cases valued
    exact .refl fraction.within
  · obtain ⟨added, adds, given⟩ := bind_pure_eq_some valued
    cases given
    exact takes_addToken fraction.within adds

theorem takes_scanWord (stands : reader.Within source)
    (ends : scanWord reader = ⟨moves, some after⟩) : Takes source moves reader after := by
  obtain ⟨_, ended, _, looped, behindWord, rfl⟩ := bind_eq_some ends
  have loop := takes_advanceWhile takes_sees stands looped
  obtain ⟨_, word, _, sliced, adds, rfl⟩ := bind_eq_some behindWord
  have slice := takes_lexeme loop.within sliced
  exact loop.trans (slice.trans (takes_addToken loop.within adds))

theorem takes_skipBlockComment (stands : reader.Within source)
    (ends : skipBlockComment reader sink = ⟨moves, some (after, sinkAfter)⟩) :
    Takes source moves reader after := by
  obtain ⟨_, closing, _, looped, closes, rfl⟩ := bind_eq_some ends
  have loop := takes_advanceWhile takes_isInComment stands looped
  split at closes
  · cases closes
    exact loop.trans (.refl loop.within)
  · obtain ⟨_, ⟨byte, slashNext⟩, _, advanced, behindStar, rfl⟩ := bind_eq_some closes
    have first := gains_advance loop.within advanced
    obtain ⟨_, ⟨mark, closed⟩, _, advancedOn, turned, rfl⟩ := bind_eq_some behindStar
    have second := gains_advance first.within advancedOn
    obtain ⟨_, noted, given⟩ := bind_pure_eq_some turned
    cases noted
    cases given
    have turn := (first.trans second.toTakes).turn loop.within
    simpa only [List.append_assoc] using loop.trans turn

theorem takes_scanSlash (stands : reader.Within source)
    (ends : scanSlash reader sink = ⟨moves, some (after, sinkAfter)⟩) :
    Takes source moves reader after := by
  obtain ⟨_, line, _, acceptedSlash, behindSlash, rfl⟩ := bind_eq_some ends
  have marks := takes_accept stands acceptedSlash
  cases line with
  | some comment =>
      obtain ⟨ended, skipped, given⟩ := bind_pure_eq_some behindSlash
      cases given
      exact marks.trans (takes_advanceWhile takes_isBefore marks.within skipped)
  | none =>
      obtain ⟨_, block, _, acceptedStar, behindStar, rfl⟩ := bind_eq_some behindSlash
      have marksOn := takes_accept stands acceptedStar
      refine marks.trans (marksOn.trans ?_)
      cases block with
      | some comment => exact takes_skipBlockComment marksOn.within behindStar
      | none =>
          obtain ⟨added, adds, given⟩ := bind_pure_eq_some behindStar
          cases given
          exact takes_addToken stands adds

theorem takes_scanSymbol {mark : Symbol} (stands : reader.Within source)
    (ends : scanSymbol reader mark = ⟨moves, some after⟩) : Takes source moves reader after := by
  unfold scanSymbol at ends
  split at ends
  · exact takes_addToken stands ends
  · obtain ⟨_, longer, _, accepted, added, rfl⟩ := bind_eq_some ends
    have second := takes_accept stands accepted
    cases longer <;> exact second.trans (takes_addToken second.within added)

/-- The first byte of a segment is read outside the inner loops. -/
theorem gains_scanToken (stands : reader.Within source)
    (ends : scanToken reader sink = ⟨moves, some (after, sinkAfter)⟩) :
    Gains source moves reader after := by
  obtain ⟨_, ⟨byte, next⟩, _, advanced, behindByte, rfl⟩ := bind_eq_some ends
  have first := gains_advance stands advanced
  have within := first.within
  refine first.trans ?_
  dsimp only at behindByte
  split at behindByte
  · exact takes_scanSlash within behindByte
  · obtain ⟨ended, scanned, given⟩ := bind_pure_eq_some behindByte
    cases given
    exact takes_scanSymbol within scanned
  split at behindByte
  · cases behindByte
    exact .refl within
  split at behindByte
  · exact takes_scanString within behindByte
  split at behindByte
  · exact takes_scanNumber within behindByte
  split at behindByte
  · obtain ⟨ended, scanned, given⟩ := bind_pure_eq_some behindByte
    cases given
    exact takes_scanWord within scanned
  · cases behindByte
    exact .refl within

theorem takes_scanFrom (stands : reader.Within source)
    (ends : scanFrom reader sink = ⟨moves, some (after, sinkAfter)⟩) :
    Takes source moves reader after ∧ after.current = source.length := by
  induction unread : source.length - reader.current using Nat.strong_induction_on
    generalizing reader sink moves with
  | _ count ih =>
      -- A round has the byte of its first move left over to be counted with.
      rw [scanFrom_eq] at ends
      split at ends
      · rename_i ended
        have behind : source.length ≤ reader.current := by
          rw [← stands.same]
          simpa [Reader.atEnd] using ended
        have inside := stands.current
        cases ends
        exact ⟨.refl stands, Nat.le_antisymm inside behind⟩
      · obtain ⟨_, _, _, noted, begun, rfl⟩ := bind_eq_some ends
        cases noted
        obtain ⟨_, ⟨next, sinkNext⟩, _, scanned, rounded, rfl⟩ := bind_eq_some begun
        obtain ⟨_, _, _, noted, goneOn, rfl⟩ := bind_eq_some rounded
        cases noted
        have token := gains_scanToken stands.beginLexeme scanned
        have fewer : source.length - next.current < count := by
          have onwards : reader.current < next.current := token.current_lt
          have inside := token.within.current
          omega
        obtain ⟨later, ended⟩ := ih _ fewer token.within goneOn rfl
        refine ⟨?_, ended⟩
        have begins : Takes source [.arrives reader.beginLexeme] reader reader.beginLexeme :=
          .arrives stands.beginLexeme rfl
        have round := (begins.trans_gains token).round stands
        simpa only [List.append_assoc] using round.trans later

theorem takes_scanTokens {tokens : List Token} {used : Reader}
    (ends : scanTokens reader sink = ⟨moves, some (tokens, used, sinkAfter)⟩) :
    Takes reader.source moves reader.reset used ∧ used.current = reader.source.length := by
  have stands : reader.reset.Within reader.source := ⟨rfl, Nat.le_refl _, Nat.zero_le _⟩
  obtain ⟨_, fresh, _, begun, run, rfl⟩ := bind_eq_some ends
  cases begun
  obtain ⟨_, ⟨ended, sinkEnded⟩, _, scanned, handed, rfl⟩ := bind_eq_some run
  obtain ⟨whole, atEnd⟩ := takes_scanFrom stands scanned
  cases handed
  have emptied : Reader.Within { ended with tokens := [] } reader.source :=
    ⟨whole.within.same, whole.within.start, whole.within.current⟩
  have begins : Takes reader.source [.arrives reader.reset] reader.reset reader.reset :=
    .arrives stands rfl
  have finishes : Takes reader.source [.arrives { ended with tokens := [] }] ended
      { ended with tokens := [] } :=
    .arrives emptied rfl
  exact ⟨begins.trans (whole.trans finishes), atEnd⟩

/-- A run gives its tokens when its cursor is behind the last byte.  By then it has taken in every
byte once and in order, all its loops together have gone on at most once for each byte, and none
of its moves has left the source. -/
theorem scanTokens_safe (reader : Reader) (sink : Collector) :
    (scanTokens reader sink).result? = reader.scanTokens? sink ∧
      (∃ tokens used sinkAfter, reader.scanTokens? sink = some (tokens, used, sinkAfter) ∧
        used.current = reader.source.length) ∧
      (scanTokens reader sink).moves.filterMap Move.consumed? =
        List.range reader.source.length ∧
      (scanTokens reader sink).moves.countP Move.isIteration ≤ reader.source.length ∧
      ∀ move ∈ (scanTokens reader sink).moves, move.Safe reader.source := by
  obtain ⟨used, _, given⟩ := Reader.scanTokens?_eq reader sink
  have same := result?_scanTokens reader sink
  have ends : scanTokens reader sink = ⟨(scanTokens reader sink).moves, _⟩ :=
    congrArg (Traced.mk _) (same.trans given)
  obtain ⟨run, atEnd⟩ := takes_scanTokens ends
  have consumed := run.consumed
  have iterations := run.iterations
  have fresh : reader.reset.current = 0 := rfl
  rw [fresh, atEnd, Nat.sub_zero] at consumed iterations
  refine ⟨same, ⟨_, used, _, given, atEnd⟩, ?_, iterations, run.safe⟩
  rw [consumed, List.range_eq_range']

end Traced

end ScriptLexer
