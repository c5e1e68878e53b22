import Automation.Text.Hex

/-!
# Identifiers

A 128-bit identifier is printed as 32 hexadecimal digits in five groups. It is read in either case
from that form, bare, in braces or after the prefix of its name space, and also without hyphens.
-/
namespace Automation

structure Uuid where
  value : BitVec 128
  deriving DecidableEq, Inhabited

namespace Uuid

/-- The lengths of the groups of digits. -/
def groups : List Nat := [8, 4, 4, 4, 12]

/-- The groups of a text of digits, joined by hyphens. -/
def hyphenate : (groups : List Nat) → List Char → List Char
  | [], _ => []
  | [_], digits => digits
  | size :: rest, digits => digits.take size ++ '-' :: hyphenate rest (digits.drop size)

/-- The digits of a hyphenated text, if the hyphens stand where they should. -/
def unhyphenate? : (groups : List Nat) → List Char → Option (List Char)
  | [], chars => if chars.isEmpty then some [] else none
  | [size], chars => if chars.length = size then some chars else none
  | size :: rest, chars =>
    match chars.drop size with
    | '-' :: later => (unhyphenate? rest later).map (chars.take size ++ ·)
    | _ => none

def chars (id : Uuid) : List Char :=
  hyphenate groups (Text.hexDigits 32 id.value.toNat)

def text (id : Uuid) : String := String.ofList id.chars

instance : ToString Uuid := ⟨text⟩

private def ofDigits? (digits : List Char) : Option Uuid :=
  if digits.length = 32 then (Text.hexNumber? digits).map fun n => ⟨BitVec.ofNat 128 n⟩ else none

/-- Only the length tells the forms apart. -/
def ofChars? (chars : List Char) : Option Uuid :=
  if chars.length = 32 then ofDigits? chars
  else if chars.length = 36 then (unhyphenate? groups chars).bind ofDigits?
  else if chars.length = 38 then
    match chars with
    | '\x7b' :: rest =>
      if rest.getLast? == some '\x7d' then (unhyphenate? groups rest.dropLast).bind ofDigits?
      else none
    | _ => none
  else if chars.length = 45 && chars.take 9 == "urn:uuid:".toList then
    (unhyphenate? groups (chars.drop 9)).bind ofDigits?
  else none

def ofText? (text : String) : Option Uuid := ofChars? text.toList

end Uuid
end Automation
