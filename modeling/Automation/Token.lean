/-!
# Tokens of the rule language

A token is a lexeme with its kind and the place just past its last character. Lines and columns
count from one; a line break ends its line and belongs to it.
-/
namespace Automation

/-- A place in a text. -/
structure Position where
  line : Nat
  column : Nat
  deriving DecidableEq, Inhabited

namespace Position

def start : Position := ⟨1, 1⟩

/-- The place after one more character. -/
def advance (p : Position) (c : Char) : Position :=
  if c == '\n' then ⟨p.line + 1, 1⟩ else ⟨p.line, p.column + 1⟩

def after (p : Position) (chars : List Char) : Position :=
  chars.foldl advance p

end Position

/-- The lexical categories. -/
inductive Token.Kind where
  | keyword
  | identifier
  | operator
  | string
  | number
  | symbol
  deriving DecidableEq, Inhabited

structure Token where
  kind : Token.Kind
  value : String
  line : Nat
  column : Nat
  deriving DecidableEq, Inhabited

namespace Token

/-- The words that are keywords; every other word is an identifier. -/
def keywords : List String :=
  ["when", "then", "end", "on", "do", "if", "else", "every", "minutes", "hour", "hours",
    "seconds", "and", "or", "not", "contains"]

def operators : List String :=
  ["==", "!=", ">=", "<=", ">", "<", "=", "!", "+", "-", "*", "/"]

/-- The operators that are taken before their first character alone. -/
def longOperators : List String := ["==", "!=", ">=", "<="]

/-- The characters that start an operator or a symbol. -/
def symbolChars : List Char := "()\x7b\x7d[]<>=!+-*/,".toList

def isKeyword (token : Token) (word : String) : Bool :=
  token.kind == .keyword && token.value == word

def isSymbol (token : Token) (symbol : String) : Bool :=
  token.kind == .symbol && token.value == symbol

end Token
end Automation
