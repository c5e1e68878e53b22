import Automation.Text.Blank
import Automation.Token

/-!
# Scanning

A text is cut into pieces from the left. Each piece is either passed over (a blank, a comment, a
character that starts nothing) or is the lexeme of one token, and each has at least one character.
Scanning never fails. The rules are tried in this order: blanks; comments from `#` or `//` to the
end of the line; strings in either quote, where a backslash takes the next character as it is;
digits with at most one point between them; operators and symbols, the longer first; words.
-/
namespace Automation.Token

/-- What a piece is besides its first character: how many more characters, and the kind and value
of its token. -/
structure Piece where
  extra : Nat
  lexeme : Option (Kind × String)

/-- The characters of a string up to its closing quote, and how many characters that takes. A
string that is never closed runs to the end of the text. -/
def stringBody (quote : Char) : List Char → List Char × Nat
  | [] => ([], 0)
  | '\\' :: [] => ([], 1)
  | '\\' :: c :: rest =>
    let (value, count) := stringBody quote rest
    (c :: value, count + 2)
  | c :: rest =>
    if c == quote then ([], 1)
    else
      let (value, count) := stringBody quote rest
      (c :: value, count + 1)

/-- Digits, and a point with further digits if a digit follows it. -/
def numeral (chars : List Char) : List Char :=
  let whole := chars.takeWhile Char.isDigit
  match chars.dropWhile Char.isDigit with
  | '.' :: d :: rest =>
    if d.isDigit then whole ++ '.' :: d :: rest.takeWhile Char.isDigit else whole
  | _ => whole

def isWordStart (c : Char) : Bool := c.isAlpha || c == '_'

def isWordChar (c : Char) : Bool := c.isAlphanum || c == '_' || c == '-'

def wordKind (word : String) : Kind :=
  if keywords.contains word then .keyword else .identifier

def operatorKind (lexeme : String) : Kind :=
  if operators.contains lexeme then .operator else .symbol

/-- The longest operator or symbol that starts with the given character. -/
def operatorPiece (c : Char) (rest : List Char) : Piece :=
  match rest with
  | d :: _ =>
    if longOperators.contains (String.ofList [c, d]) then
      ⟨1, some (operatorKind (String.ofList [c, d]), String.ofList [c, d])⟩
    else ⟨0, some (operatorKind (String.ofList [c]), String.ofList [c])⟩
  | [] => ⟨0, some (operatorKind (String.ofList [c]), String.ofList [c])⟩

/-- Whether a comment starts here. -/
def startsComment (c : Char) (rest : List Char) : Bool :=
  c == '#' || (c == '/' && rest.head? == some '/')

/-- The first piece of a text. -/
def piece (c : Char) (rest : List Char) : Piece :=
  if Text.isBlank c then ⟨0, none⟩
  else if startsComment c rest then ⟨(rest.takeWhile (· != '\n')).length, none⟩
  else if c == '\'' || c == '"' then
    let (value, count) := stringBody c rest
    ⟨count, some (.string, String.ofList value)⟩
  else if c.isDigit then
    let digits := numeral (c :: rest)
    ⟨digits.length - 1, some (.number, String.ofList digits)⟩
  else if symbolChars.contains c then operatorPiece c rest
  else if isWordStart c then
    let word := String.ofList (c :: rest.takeWhile isWordChar)
    ⟨(rest.takeWhile isWordChar).length, some (wordKind word, word)⟩
  else ⟨0, none⟩

/-- The tokens of the characters that start at a place. -/
def scanFrom (place : Position) : List Char → List Token
  | [] => []
  | c :: rest =>
    let first := piece c rest
    let next := place.after (c :: rest.take first.extra)
    let later := scanFrom next (rest.drop first.extra)
    match first.lexeme with
    | some (kind, value) => ⟨kind, value, next.line, next.column⟩ :: later
    | none => later
termination_by chars => chars.length
decreasing_by
  simp only [List.length_drop, List.length_cons]
  omega

def scan (code : String) : List Token :=
  scanFrom Position.start code.toList

end Automation.Token
