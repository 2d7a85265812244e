import ScriptLexer.Diagnostic
import ScriptLexer.Segmentation
import ScriptLexer.Token

namespace ScriptLexer

/-! The scan of a script.  Its segments are given their places, lexemes become
tokens and faulty segments become diagnostics, each list in the order of the text.
-/

/-- What is wrong with a segment.  A stray byte is skipped, and what is never
closed takes up the rest of the script. -/
def Segment.fault? : Segment → Option Fault
  | .stray _ => some .unexpectedCharacter
  | .openString _ => some .unterminatedString
  | .openComment _ => some .unterminatedComment
  | _ => none

/-- A segment with the offset and the line of its first byte. -/
structure Placed where
  segment : Segment
  offset : Nat
  line : Nat
deriving DecidableEq

namespace Placed

/-- The line that is reached behind the segment. -/
def endLine (placed : Placed) : Nat :=
  placed.line + newlines placed.segment.text

/-- A token has the line on which it begins, also where a string spans lines. -/
def token? (placed : Placed) : Option Token :=
  match placed.segment with
  | .lexeme lexeme => some (Token.ofLexeme lexeme placed.line)
  | _ => none

/-- A diagnostic has the line on which the fault is known. -/
def diagnostic? (placed : Placed) : Option Diagnostic :=
  placed.segment.fault?.map (Diagnostic.ofFault · placed.endLine)

end Placed

/-- The line that is reached behind segments of which the first begins on `line`. -/
def lineBehind (line : Nat) : List Segment → Nat
  | [] => line
  | segment :: rest => lineBehind (line + newlines segment.text) rest

/-- Places segments one behind the other. -/
def placedFrom (offset line : Nat) : List Segment → List Placed
  | [] => []
  | segment :: rest =>
      ⟨segment, offset, line⟩ ::
        placedFrom (offset + segment.text.length) (line + newlines segment.text) rest

def placedSegments (source : Bytes) : List Placed :=
  placedFrom 0 1 (segments source)

structure Scan where
  tokens : List Token
  diagnostics : List Diagnostic
deriving DecidableEq

def scan (source : Bytes) : Scan where
  tokens :=
    (placedSegments source).filterMap Placed.token? ++
      [.endOfFile (lineBehind 1 (segments source))]
  diagnostics := (placedSegments source).filterMap Placed.diagnostic?

theorem map_segment_placedFrom (offset line : Nat) (rest : List Segment) :
    (placedFrom offset line rest).map Placed.segment = rest := by
  induction rest generalizing offset line with
  | nil => rfl
  | cons segment rest ih => simp [placedFrom, ih]

theorem placedFrom_append (offset line : Nat) (front back : List Segment) :
    placedFrom offset line (front ++ back) =
      placedFrom offset line front ++
        placedFrom (offset + (front.flatMap Segment.text).length)
          (line + newlines (front.flatMap Segment.text)) back := by
  induction front generalizing offset line with
  | nil => simp [placedFrom, newlines]
  | cons segment front ih =>
      simp [placedFrom, ih, newlines_append, Nat.add_assoc]

end ScriptLexer
