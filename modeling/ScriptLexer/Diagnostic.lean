import ScriptLexer.Text.Numeral

namespace ScriptLexer

/-! What can be wrong with a script, and how it is said. -/

inductive Fault where
  | unexpectedCharacter
  | unterminatedString
  | unterminatedComment
deriving DecidableEq

def Fault.message : Fault → Bytes
  | .unexpectedCharacter => ascii "Unexpected character."
  | .unterminatedString => ascii "Unterminated string."
  | .unterminatedComment => ascii "Unterminated multiline comment."

/-- A message about a line.  Its text need not be that of a fault. -/
structure Diagnostic where
  line : Nat
  message : Bytes
deriving DecidableEq

namespace Diagnostic

def ofFault (fault : Fault) (line : Nat) : Diagnostic where
  line := line
  message := fault.message

def format (diagnostic : Diagnostic) : Bytes :=
  ascii "[line " ++ Numeral.ofNat diagnostic.line ++ ascii "] Error: " ++ diagnostic.message

end Diagnostic

end ScriptLexer
