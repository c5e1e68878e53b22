/-!
# Hexadecimal digits

Digits are written in lower case and read in either case.
-/
namespace Automation.Text

def hexDigit (n : Nat) : Char :=
  if n < 10 then Char.ofNat (48 + n) else Char.ofNat (87 + n)

def hexValue? (c : Char) : Option Nat :=
  if c.isDigit then some (c.toNat - 48)
  else if 'a' ≤ c && c ≤ 'f' then some (c.toNat - 87)
  else if 'A' ≤ c && c ≤ 'F' then some (c.toNat - 55)
  else none

/-- The last `count` hexadecimal digits of a number, the highest first. -/
def hexDigits : (count : Nat) → Nat → List Char
  | 0, _ => []
  | count + 1, n => hexDigits count (n / 16) ++ [hexDigit (n % 16)]

/-- The number written by hexadecimal digits; nothing if one of them is none. -/
def hexNumber? (chars : List Char) : Option Nat :=
  chars.foldlM (fun value c => (hexValue? c).map (value * 16 + ·)) 0

end Automation.Text
