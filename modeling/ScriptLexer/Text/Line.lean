import ScriptLexer.Text.Byte

namespace ScriptLexer

/-! Lines of a text.  `pieces` is what stands between the newlines; `lines` are the
lines a reader is given, where a final newline ends the last line and begins no
other.
-/

open Byte

def newlines (text : Bytes) : Nat :=
  text.count newline

/-- The line on which the text after `text` begins.  Lines are counted from one. -/
def lineAfter (text : Bytes) : Nat :=
  1 + newlines text

def pieces (text : Bytes) : List Bytes :=
  text.splitOn newline

def lines (text : Bytes) : List Bytes :=
  if (pieces text).getLast? = some [] then (pieces text).dropLast else pieces text

/-- A line without the carriage returns at its end. -/
def trimReturns (line : Bytes) : Bytes :=
  (line.reverse.dropWhile (· == carriageReturn)).reverse

theorem newlines_append (front back : Bytes) :
    newlines (front ++ back) = newlines front + newlines back :=
  List.count_append

theorem newlines_eq_zero_iff {text : Bytes} : newlines text = 0 ↔ newline ∉ text :=
  List.count_eq_zero

theorem lineAfter_append (front back : Bytes) :
    lineAfter (front ++ back) = lineAfter front + newlines back := by
  rw [lineAfter, newlines_append, ← Nat.add_assoc, lineAfter]

theorem pieces_nil : pieces [] = [[]] :=
  List.splitOn_nil newline

theorem pieces_append_newline (front back : Bytes) :
    pieces (front ++ newline :: back) = pieces front ++ pieces back :=
  List.splitOn_append_cons_self front back

theorem pieces_eq_singleton {text : Bytes} (single : newline ∉ text) : pieces text = [text] :=
  List.splitOn_eq_singleton single

/-- There is one piece more than there are newlines. -/
theorem length_pieces (text : Bytes) : (pieces text).length = lineAfter text := by
  induction text with
  | nil => rfl
  | cons byte rest ih =>
      by_cases isNewline : byte = newline
      · subst isNewline
        have split := pieces_append_newline [] rest
        rw [pieces_nil, List.nil_append] at split
        rw [split, List.length_append, ih]
        simp [lineAfter, newlines]
        omega
      · have split : pieces (byte :: rest) = (pieces rest).modifyHead (List.cons byte) := by
          simp [pieces, List.splitOn_cons_eq_if_modifyHead, isNewline]
        rw [split, List.length_modifyHead, ih]
        simp [lineAfter, newlines, isNewline]

end ScriptLexer
