import ScriptLexer.Text.Byte

namespace ScriptLexer

/-! What a token can be.  Every kind has a name, which is what users see, and a
code, which is how a kind is given from outside.
-/

inductive Symbol where
  | leftParen | rightParen | leftBrace | rightBrace
  | comma | dot | minus | plus | semicolon | slash | star
  | bang | bangEqual | equal | equalEqual | greater | greaterEqual | less | lessEqual
deriving DecidableEq

inductive Keyword where
  | and | «class» | «else» | false | «fun» | «for» | «if» | nil | or
  | print | «return» | super | this | true | var | «while»
deriving DecidableEq

namespace Symbol

def all : List Symbol :=
  [leftParen, rightParen, leftBrace, rightBrace, comma, dot, minus, plus, semicolon, slash, star,
    bang, bangEqual, equal, equalEqual, greater, greaterEqual, less, lessEqual]

theorem mem_all (symbol : Symbol) : symbol ∈ all := by
  cases symbol <;> decide

def text : Symbol → Bytes
  | leftParen => ascii "("
  | rightParen => ascii ")"
  | leftBrace => ascii "\x7b"
  | rightBrace => ascii "\x7d"
  | comma => ascii ","
  | dot => ascii "."
  | minus => ascii "-"
  | plus => ascii "+"
  | semicolon => ascii ";"
  | slash => ascii "/"
  | star => ascii "*"
  | bang => ascii "!"
  | bangEqual => ascii "!="
  | equal => ascii "="
  | equalEqual => ascii "=="
  | greater => ascii ">"
  | greaterEqual => ascii ">="
  | less => ascii "<"
  | lessEqual => ascii "<="

def name : Symbol → String
  | leftParen => "LEFT_PAREN"
  | rightParen => "RIGHT_PAREN"
  | leftBrace => "LEFT_BRACE"
  | rightBrace => "RIGHT_BRACE"
  | comma => "COMMA"
  | dot => "DOT"
  | minus => "MINUS"
  | plus => "PLUS"
  | semicolon => "SEMICOLON"
  | slash => "SLASH"
  | star => "STAR"
  | bang => "BANG"
  | bangEqual => "BANG_EQUAL"
  | equal => "EQUAL"
  | equalEqual => "EQUAL_EQUAL"
  | greater => "GREATER"
  | greaterEqual => "GREATER_EQUAL"
  | less => "LESS"
  | lessEqual => "LESS_EQUAL"

/-- The symbol that a text spells. -/
def ofText? (text : Bytes) : Option Symbol :=
  all.find? fun symbol => symbol.text == text

theorem ofText?_text (symbol : Symbol) : ofText? symbol.text = some symbol := by
  cases symbol <;> decide

theorem ofText?_eq_some_iff {text : Bytes} {symbol : Symbol} :
    ofText? text = some symbol ↔ symbol.text = text := by
  constructor
  · intro found
    have spelled := List.find?_some found
    exact eq_of_beq spelled
  · rintro rfl
    exact ofText?_text symbol

theorem text_ne_nil (symbol : Symbol) : symbol.text ≠ [] := by
  cases symbol <;> decide

end Symbol

namespace Keyword

def all : List Keyword :=
  [and, «class», «else», false, «fun», «for», «if», nil, or,
    print, «return», super, this, true, var, «while»]

theorem mem_all (keyword : Keyword) : keyword ∈ all := by
  cases keyword <;> decide

def text : Keyword → Bytes
  | and => ascii "and"
  | «class» => ascii "class"
  | «else» => ascii "else"
  | false => ascii "false"
  | «fun» => ascii "fun"
  | «for» => ascii "for"
  | «if» => ascii "if"
  | nil => ascii "nil"
  | or => ascii "or"
  | print => ascii "print"
  | «return» => ascii "return"
  | super => ascii "super"
  | this => ascii "this"
  | true => ascii "true"
  | var => ascii "var"
  | «while» => ascii "while"

def name : Keyword → String
  | and => "AND"
  | «class» => "CLASS"
  | «else» => "ELSE"
  | false => "FALSE"
  | «fun» => "FUN"
  | «for» => "FOR"
  | «if» => "IF"
  | nil => "NIL"
  | or => "OR"
  | print => "PRINT"
  | «return» => "RETURN"
  | super => "SUPER"
  | this => "THIS"
  | true => "TRUE"
  | var => "VAR"
  | «while» => "WHILE"

/-- The keyword that a word spells, letter case included. -/
def ofText? (word : Bytes) : Option Keyword :=
  all.find? fun keyword => keyword.text == word

theorem ofText?_text (keyword : Keyword) : ofText? keyword.text = some keyword := by
  cases keyword <;> decide

theorem ofText?_eq_some_iff {word : Bytes} {keyword : Keyword} :
    ofText? word = some keyword ↔ keyword.text = word := by
  constructor
  · intro found
    have spelled := List.find?_some found
    exact eq_of_beq spelled
  · rintro rfl
    exact ofText?_text keyword

theorem ofText?_eq_none_iff {word : Bytes} :
    ofText? word = none ↔ ∀ keyword : Keyword, keyword.text ≠ word := by
  simp [Option.eq_none_iff_forall_ne_some, ofText?_eq_some_iff]

end Keyword

/-- How many kinds have a name.  Their codes are the numbers below. -/
def kindCount : Nat := 39

inductive Kind where
  | symbol (symbol : Symbol)
  | identifier
  | string
  | number
  | keyword (keyword : Keyword)
  | endOfFile
  /-- A code that belongs to none of the kinds above. -/
  | unnamed (code : Int) (beyond : code < 0 ∨ kindCount ≤ code)
deriving DecidableEq

namespace Kind

/-- The kinds with a name in the order of their codes. -/
def named : List Kind :=
  Symbol.all.map symbol ++ [identifier, string, number] ++ Keyword.all.map keyword ++ [endOfFile]

theorem length_named : named.length = kindCount := rfl

def ofCode (code : Int) : Kind :=
  if inside : 0 ≤ code ∧ code < kindCount then
    named.get ⟨code.toNat, by rw [length_named]; omega⟩
  else unnamed code (by omega)

def name : Kind → String
  | .symbol mark => mark.name
  | .identifier => "IDENTIFIER"
  | .string => "STRING"
  | .number => "NUMBER"
  | .keyword word => word.name
  | .endOfFile => "EOF"
  | .unnamed _ _ => "UNKNOWN"

def isKeyword : Kind → Bool
  | .keyword _ => true
  | _ => false

theorem mem_named_or_unnamed (kind : Kind) :
    kind ∈ named ∨ ∃ code beyond, kind = unnamed code beyond := by
  cases kind with
  | symbol symbol => exact .inl (by simp [named, Symbol.mem_all symbol])
  | keyword keyword => exact .inl (by simp [named, Keyword.mem_all keyword])
  | identifier | string | number | endOfFile => exact .inl (by simp [named])
  | unnamed code beyond => exact .inr ⟨code, beyond, rfl⟩

end Kind

end ScriptLexer
