import ScriptLexer.Token.Lexeme

namespace ScriptLexer

/-! A script is cut into segments that leave nothing out: lexemes, what stands
between them, and what does not belong in a script.
-/

open Byte

inductive Segment where
  | blank (byte : UInt8)
  /-- What stands behind the two slashes, up to the end of the line. -/
  | lineComment (body : Bytes)
  /-- What stands between the opening and the first closing mark. -/
  | blockComment (body : Bytes)
  | lexeme (lexeme : Lexeme)
  /-- A byte that can begin nothing else. -/
  | stray (byte : UInt8)
  /-- All that is left behind a quote that no other quote closes. -/
  | openString (body : Bytes)
  /-- All that is left behind the mark of a block comment that is never closed. -/
  | openComment (body : Bytes)
deriving DecidableEq

namespace Segment

def text : Segment → Bytes
  | .blank byte => [byte]
  | .lineComment body => slash :: slash :: body
  | .blockComment body => slash :: star :: (body ++ [star, slash])
  | .lexeme part => part.text
  | .stray byte => [byte]
  | .openString body => quote :: body
  | .openComment body => slash :: star :: body

end Segment

end ScriptLexer
