import ScriptLexer.Number.Binary64
import ScriptLexer.Text.Numeral
import ScriptLexer.Token.Kind

namespace ScriptLexer

/-! Lexemes: the parts of a script that become tokens.  A lexeme knows its text,
and kind and value of its token depend on nothing else.
-/

inductive Literal where
  | string (value : Bytes)
  | number (value : Binary64)
deriving DecidableEq

inductive Lexeme where
  | symbol (symbol : Symbol)
  | word (text : Bytes)
  /-- Digits, and those behind the point if there is one. -/
  | number (whole fraction : Bytes)
  /-- What stands between the quotes. -/
  | string (body : Bytes)
deriving DecidableEq

namespace Lexeme

def text : Lexeme → Bytes
  | .symbol mark => mark.text
  | .word text => text
  | .number whole fraction => whole ++ Numeral.pointed fraction
  | .string body => Byte.quote :: body ++ [Byte.quote]

def kind : Lexeme → Kind
  | .symbol mark => .symbol mark
  | .word text => ((Keyword.ofText? text).map Kind.keyword).getD .identifier
  | .number _ _ => .number
  | .string _ => .string

/-- The exact value of a number's digits. -/
def decimal (whole fraction : Bytes) : Decimal where
  digits := Numeral.value (whole ++ fraction)
  exponent := -fraction.length

def literal? : Lexeme → Option Literal
  | .symbol _ => none
  | .word _ => none
  | .number whole fraction => some (.number (Binary64.ofDecimal (decimal whole fraction)))
  | .string body => some (.string body)

end Lexeme

end ScriptLexer
