import Automation.Number.Double
import Automation.Text.Blank

/-!
# Reading numbers

A number is written as an optional sign and then either digits with at most one point and an
optional exponent, or one of the words for infinity and not-a-number in any case. At least one
digit stands beside the point. Nothing may surround the number; `Double.ofTrimmed?` is the lenient
form that first drops the blanks at both ends.
-/
namespace Automation.Double

/-- The value of a run of digits. -/
def digitsValue (digits : List Char) : Nat :=
  digits.foldl (fun value c => value * 10 + (c.toNat - 48)) 0

private def lowercase (chars : List Char) : List Char :=
  chars.map Char.toLower

/-- What may follow the digits: nothing, or the letter `e`, a sign and digits. -/
def exponentOf? : List Char → Option Int
  | [] => some 0
  | c :: rest =>
    if c == 'e' || c == 'E' then
      match rest with
      | '+' :: digits => unsigned? digits
      | '-' :: digits => (unsigned? digits).map (- ·)
      | digits => unsigned? digits
    else none
where
  unsigned? (digits : List Char) : Option Int :=
    if !digits.isEmpty && digits.all Char.isDigit then some (digitsValue digits) else none

/-- A number without its sign. -/
def magnitude? (negative : Bool) (chars : List Char) : Option Double :=
  match lowercase chars with
  | ['n', 'a', 'n'] => some nan
  | ['i', 'n', 'f'] => some (infinite negative)
  | ['i', 'n', 'f', 'i', 'n', 'i', 't', 'y'] => some (infinite negative)
  | _ =>
    let before := chars.takeWhile Char.isDigit
    let (after, rest) :=
      match chars.dropWhile Char.isDigit with
      | '.' :: rest => (rest.takeWhile Char.isDigit, rest.dropWhile Char.isDigit)
      | rest => ([], rest)
    if before.isEmpty && after.isEmpty then none
    else (exponentOf? rest).map fun exponent =>
      ofDecimal negative (digitsValue (before ++ after)) (exponent - after.length)

def ofChars? : List Char → Option Double
  | '+' :: rest => magnitude? false rest
  | '-' :: rest => magnitude? true rest
  | chars => magnitude? false chars

def ofText? (text : String) : Option Double :=
  ofChars? text.toList

def ofTrimmed? (text : String) : Option Double :=
  ofChars? (Text.trimChars text.toList)

end Automation.Double
