import Mathlib
import ScriptLexer.Proofs.Text.Front
import ScriptLexer.Reader

namespace ScriptLexer.Reader

open Byte

/-! What a reader has ahead of it, and how far each of its moves takes it.  Offsets and
lines are looked at here only; above, a reader is told by the text that it is past.
-/

/-- The text that has not been read. -/
def ahead (reader : Reader) : Bytes :=
  reader.source.drop reader.current

/-- The reader when it has read a text. -/
def past (reader : Reader) (text : Bytes) : Reader :=
  { reader with
    current := reader.current + text.length
    line := reader.line + newlines text }

variable {reader : Reader} {front back : Bytes} {byte : UInt8}

@[simp] theorem past_nil (reader : Reader) : reader.past [] = reader := rfl

@[simp] theorem past_past (reader : Reader) (first second : Bytes) :
    (reader.past first).past second = reader.past (first ++ second) := by
  simp [past, newlines_append, Nat.add_assoc]

theorem ahead_past (text : reader.ahead = front ++ back) : (reader.past front).ahead = back := by
  have dropped : (reader.past front).ahead = reader.ahead.drop front.length := by
    simp [ahead, past, List.drop_drop]
  rw [dropped, text, List.drop_left]

theorem head?_ahead (reader : Reader) : reader.ahead.head? = reader.source[reader.current]? := by
  rw [ahead, List.head?_drop]

theorem atEnd_eq (reader : Reader) : reader.atEnd = reader.ahead.isEmpty := by
  rw [Bool.eq_iff_iff, List.isEmpty_iff, ahead, List.drop_eq_nil_iff]
  exact decide_eq_true_iff

theorem atEnd_of_ahead (ended : reader.ahead = []) : reader.atEnd = true := by
  rw [atEnd_eq, ended]
  rfl

theorem not_atEnd_of_ahead (text : reader.ahead = byte :: back) : reader.atEnd = false := by
  rw [atEnd_eq, text]
  rfl

theorem peek_eq (reader : Reader) : reader.peek = reader.ahead.headD 0 := by
  rw [List.headD_eq_head?_getD, head?_ahead, peek]
  split
  · rename_i inside
    rw [List.getElem?_eq_getElem inside, Option.getD_some]
  · rename_i outside
    rw [List.getElem?_eq_none (Nat.not_lt.mp outside), Option.getD_none]

theorem peekNext_eq (reader : Reader) : reader.peekNext = reader.ahead.tail.headD 0 := by
  rw [List.headD_eq_head?_getD, ahead, List.tail_drop, List.head?_drop, peekNext]
  split
  · rename_i inside
    rw [List.getElem?_eq_getElem inside, Option.getD_some]
  · rename_i outside
    rw [List.getElem?_eq_none (Nat.not_lt.mp outside), Option.getD_none]

/-- The zero past the end belongs to no class that reads on. -/
theorem class_peek {inClass : UInt8 → Bool} (noZero : inClass 0 = false) (reader : Reader) :
    inClass reader.peek = startsWith inClass reader.ahead := by
  rw [peek_eq]
  cases reader.ahead with
  | nil => exact noZero
  | cons byte rest => rfl

theorem class_peekNext {inClass : UInt8 → Bool} (noZero : inClass 0 = false) (reader : Reader) :
    inClass reader.peekNext = startsWith inClass reader.ahead.tail := by
  rw [peekNext_eq]
  cases reader.ahead.tail with
  | nil => exact noZero
  | cons byte rest => rfl

theorem until_peek (reader : Reader) (byte : UInt8) :
    (!reader.atEnd && reader.peek != byte) = startsWith (decide <| · ≠ byte) reader.ahead := by
  rw [atEnd_eq, peek_eq]
  cases reader.ahead with
  | nil => rfl
  | cons next rest => simp [bne, beq_eq_decide]

theorem advance?_eq (text : reader.ahead = byte :: back) :
    reader.advance? = some (byte, reader.past [byte]) := by
  have next : reader.source[reader.current]? = some byte := by
    rw [← head?_ahead, text, List.head?_cons]
  rw [advance?, next, Option.map_some, past]
  by_cases isNewline : byte = newline <;> simp [isNewline, newlines]

theorem accept?_eq (text : reader.ahead = byte :: back) (notNewline : byte ≠ newline) :
    reader.accept? byte = some (reader.past [byte]) := by
  have next : reader.source[reader.current]? = some byte := by
    rw [← head?_ahead, text, List.head?_cons]
  rw [accept?, if_pos next, past]
  simp [newlines, notNewline]

theorem accept?_eq_none (other : startsWith (· == byte) reader.ahead = false) :
    reader.accept? byte = none := by
  rw [accept?, ← head?_ahead, if_neg]
  intro next
  simp [startsWith, next] at other

theorem advanceWhile?_eq {goesOn : Reader → Bool} (text : reader.ahead = front ++ back)
    (goes : ∀ done next left, front = done ++ next :: left → goesOn (reader.past done) = true)
    (stops : goesOn (reader.past front) = false) :
    reader.advanceWhile? goesOn = some (reader.past front) := by
  induction front generalizing reader with
  | nil =>
      rw [past_nil] at stops
      rw [advanceWhile?, if_neg (by simp [stops]), past_nil]
  | cons byte front ih =>
      have here : goesOn reader = true := goes [] byte front rfl
      have advanced := advance?_eq text
      have onwards : (reader.past [byte]).advanceWhile? goesOn =
          some ((reader.past [byte]).past front) := by
        apply ih (ahead_past text)
        · intro done next left split
          rw [past_past]
          exact goes (byte :: done) next left (by rw [split, List.cons_append])
        · rw [past_past]
          exact stops
      rw [advanceWhile?, if_pos here]
      split
      · rename_i ended
        rw [advanced] at ended
        cases ended
      · rename_i stepped
        rw [advanced] at stepped
        cases stepped
        rw [onwards, past_past, List.singleton_append]

/-- A run of bytes of one class is read to its end. -/
theorem advanceWhile?_of_class {goesOn : Reader → Bool} {inClass : UInt8 → Bool}
    (looks : ∀ reader : Reader, goesOn reader = startsWith inClass reader.ahead)
    (text : reader.ahead = front ++ back) (inside : ∀ byte ∈ front, inClass byte = true)
    (stops : startsWith inClass back = false) :
    reader.advanceWhile? goesOn = some (reader.past front) := by
  apply advanceWhile?_eq text
  · intro done next left split
    have rest : (reader.past done).ahead = next :: (left ++ back) := by
      apply ahead_past
      rw [text, split, List.append_assoc, List.cons_append]
    rw [looks, rest, startsWith_cons]
    exact inside next (by simp [split])
  · rw [looks, ahead_past text]
    exact stops

theorem advanceWhile?_behind {goesOn : Reader → Bool} {inClass : UInt8 → Bool}
    (looks : ∀ reader : Reader, goesOn reader = startsWith inClass reader.ahead)
    (text : reader.ahead = byte :: (front ++ back))
    (inside : ∀ byte ∈ front, inClass byte = true) (stops : startsWith inClass back = false) :
    (reader.past [byte]).advanceWhile? goesOn = some (reader.past (byte :: front)) := by
  have rest : (reader.past [byte]).ahead = front ++ back := ahead_past text
  rw [advanceWhile?_of_class looks rest inside stops, past_past, List.singleton_append]

variable {kind : Kind} {literal : Option Literal}

theorem lexeme?_past (fresh : reader.start = reader.current)
    (text : reader.ahead = front ++ back) (nonempty : front ≠ []) :
    (reader.past front).lexeme? = some front := by
  have inside : reader.current + front.length ≤ reader.source.length := by
    have lengths := congrArg List.length text
    have positive := List.length_pos_iff.mpr nonempty
    rw [ahead, List.length_drop, List.length_append] at lengths
    omega
  have bounds : reader.start ≤ reader.current + front.length ∧
      reader.current + front.length ≤ reader.source.length :=
    ⟨by omega, inside⟩
  have slice : (reader.source.drop reader.start).take
      (reader.current + front.length - reader.start) = front := by
    rw [fresh, Nat.add_sub_cancel_left, ← ahead, text, List.take_left]
  rw [lexeme?, past, if_pos bounds, slice]

theorem addToken?_past (fresh : reader.start = reader.current)
    (text : reader.ahead = front ++ back) (nonempty : front ≠ []) (unbroken : newline ∉ front) :
    (reader.past front).addToken? kind literal =
      some ((reader.past front).push ⟨kind, front, literal, reader.line⟩) := by
  rw [addToken?, lexeme?_past fresh text nonempty, Option.map_some, past,
    newlines_eq_zero_iff.mpr unbroken]
  rfl

end ScriptLexer.Reader
