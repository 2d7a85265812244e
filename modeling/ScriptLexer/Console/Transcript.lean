import ScriptLexer.Text.Byte

namespace ScriptLexer

/-! What a program writes, with the order of its writes kept across channels. -/

inductive Channel where
  | output
  | error
  /-- Words on the error channel that stand out in red. -/
  | emphasis
  /-- Names of the speaker of an error. -/
  | errorLabel
  /-- Names of the speaker of a note. -/
  | noteLabel
deriving DecidableEq

namespace Channel

/-- Labels are announcements, which stay apart even side by side. -/
def isLabel : Channel → Bool
  | .errorLabel | .noteLabel => true
  | .output | .error | .emphasis => false

end Channel

structure Piece where
  channel : Channel
  text : Bytes
deriving DecidableEq

abbrev Transcript := List Piece

namespace Transcript

/-- Puts a piece in front, together with the first one if both are text on the
same channel. -/
def push (piece : Piece) : Transcript → Transcript
  | [] => [piece]
  | first :: rest =>
      if piece.channel = first.channel ∧ piece.channel.isLabel = false then
        ⟨piece.channel, piece.text ++ first.text⟩ :: rest
      else piece :: first :: rest

/-- Drops empty pieces and joins adjacent text on one channel. -/
def joined : Transcript → Transcript
  | [] => []
  | piece :: rest => if piece.text = [] then joined rest else push piece (joined rest)

def textOn (channel : Channel) (transcript : Transcript) : Bytes :=
  (transcript.filter fun piece => piece.channel = channel).flatMap Piece.text

theorem textOn_append (channel : Channel) (front back : Transcript) :
    textOn channel (front ++ back) = textOn channel front ++ textOn channel back := by
  simp [textOn]

end Transcript

end ScriptLexer
