import Automation.Json.Basic
import Automation.Number.Shortest
import Automation.Text.Hex

/-!
# Printing JSON

Two layouts: compact, without any blanks, and indented by two spaces a level. Strings escape the
quote, the backslash and the control characters and nothing else.
-/
namespace Automation.Json

/-- How a character is written inside a string. -/
def escaped (c : Char) : List Char :=
  if c == '"' then ['\\', '"']
  else if c == '\\' then ['\\', '\\']
  else if c == '\n' then ['\\', 'n']
  else if c == '\r' then ['\\', 'r']
  else if c == '\t' then ['\\', 't']
  else if c == '\x08' then ['\\', 'b']
  else if c == '\x0c' then ['\\', 'f']
  else if c.toNat < 0x20 then
    '\\' :: 'u' :: Text.hexDigits 4 c.toNat
  else [c]

def quoted (text : String) : String :=
  String.ofList ('"' :: text.toList.flatMap escaped ++ ['"'])

def doubleText (d : Double) : String :=
  if d.isFinite then d.text Double.exchange else "null"

def scalar : Json → String
  | null => "null"
  | bool b => if b then "true" else "false"
  | int n => toString n
  | real d => doubleText d
  | string s => quoted s
  | array _ => "[]"
  | object _ => "\x7b\x7d"

mutual

def compact : Json → String
  | array items => "[" ++ compactItems items ++ "]"
  | object members => "\x7b" ++ compactMembers members ++ "\x7d"
  | value => scalar value

def compactItems : List Json → String
  | [] => ""
  | [value] => compact value
  | value :: rest => compact value ++ "," ++ compactItems rest

def compactMembers : List (String × Json) → String
  | [] => ""
  | [(key, value)] => quoted key ++ ":" ++ compact value
  | (key, value) :: rest => quoted key ++ ":" ++ compact value ++ "," ++ compactMembers rest

end

/-- A line break and the indentation of the given level. -/
def newline (level : Nat) : String :=
  "\n" ++ String.ofList (List.replicate (2 * level) ' ')

mutual

def prettyAt (level : Nat) : Json → String
  | array (value :: rest) =>
    "[" ++ prettyItems (level + 1) (value :: rest) ++ newline level ++ "]"
  | object (member :: rest) =>
    "\x7b" ++ prettyMembers (level + 1) (member :: rest) ++ newline level ++ "\x7d"
  | value => scalar value

def prettyItems (level : Nat) : List Json → String
  | [] => ""
  | [value] => newline level ++ prettyAt level value
  | value :: rest => newline level ++ prettyAt level value ++ "," ++ prettyItems level rest

def prettyMembers (level : Nat) : List (String × Json) → String
  | [] => ""
  | [(key, value)] => newline level ++ quoted key ++ ": " ++ prettyAt level value
  | (key, value) :: rest =>
    newline level ++ quoted key ++ ": " ++ prettyAt level value ++ "," ++ prettyMembers level rest

end

/-- The indented layout. -/
def pretty (value : Json) : String := prettyAt 0 value

end Automation.Json
