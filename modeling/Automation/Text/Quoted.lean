import Automation.Text.Hex
import Automation.Text.Invisible

/-!
# Quoted texts in messages

A text inside a message stands in double quotes. Quotes and backslashes in it are escaped, and so is
every character that could not be seen.
-/
namespace Automation.Text

/-- The hexadecimal digits of a number, without leading zeros. -/
def hexText (n : Nat) : List Char :=
  match (hexDigits 6 n).dropWhile (· == '0') with
  | [] => ['0']
  | digits => digits

/-- How a character is written inside a quoted text. -/
def visible (c : Char) : List Char :=
  if c == '\"' then ['\\', '\"']
  else if c == '\\' then ['\\', '\\']
  else if c == '\n' then ['\\', 'n']
  else if c == '\r' then ['\\', 'r']
  else if c == '\t' then ['\\', 't']
  else if c.toNat = 0 then ['\\', '0']
  else if isInvisible c then ['\\', 'u', '\x7b'] ++ hexText c.toNat ++ ['\x7d']
  else [c]

/-- A text in double quotes. -/
def quoted (text : String) : String :=
  String.ofList ('\"' :: text.toList.flatMap visible ++ ['\"'])

end Automation.Text
