import ScriptLexer.Number.Layout
import ScriptLexer.Text.Line
import ScriptLexer.Token.Lexeme

namespace ScriptLexer

/-! Tokens, what they look like in print, and when two of them count as equal. -/

namespace Literal

def text : Literal → Bytes
  | .string value => value
  | .number value => value.text

/-- Numbers are compared as numbers, so this is not equality of literals. -/
def equal : Literal → Literal → Bool
  | .string first, .string second => first == second
  | .number first, .number second => first.equal second
  | .string _, .number _ => false
  | .number _, .string _ => false

end Literal

structure Token where
  kind : Kind
  lexeme : Bytes
  literal : Option Literal
  line : Nat
deriving DecidableEq

namespace Token

def ofLexeme (lexeme : Lexeme) (line : Nat) : Token where
  kind := lexeme.kind
  lexeme := lexeme.text
  literal := lexeme.literal?
  line := line

/-- The token that closes every run. -/
def endOfFile (line : Nat) : Token where
  kind := .endOfFile
  lexeme := []
  literal := none
  line := line

/-- Kind, lexeme and value with a space before each but the first.  An empty
lexeme and a missing value leave no space either. -/
def display (token : Token) : Bytes :=
  ascii token.kind.name ++
    (if token.lexeme = [] then [] else Byte.space :: token.lexeme) ++
    (match token.literal with
      | none => []
      | some literal => Byte.space :: literal.text)

def stringValue? (token : Token) : Option Bytes :=
  match token.literal with
  | some (.string value) => some value
  | _ => none

def numberValue? (token : Token) : Option Binary64 :=
  match token.literal with
  | some (.number value) => some value
  | _ => none

def equal (first second : Token) : Bool :=
  first.kind == second.kind && first.lexeme == second.lexeme &&
    (match first.literal, second.literal with
      | none, none => true
      | some first, some second => first.equal second
      | _, _ => false) &&
    first.line == second.line

/-- Two runs are equal when their tokens are, one by one. -/
def equalRuns : List Token → List Token → Bool
  | [], [] => true
  | first :: firsts, second :: seconds => first.equal second && equalRuns firsts seconds
  | _, _ => false

end Token

end ScriptLexer
