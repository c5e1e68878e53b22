import Automation.Json.Basic
import Automation.Number.Reading

/-!
# Number literals

A literal without point and exponent that fits 64 bits is an integer, except that a negative zero
is a double. Every other literal is read as a double from at most 64 bits of leading digits: the
significand is rounded, and then multiplied or divided by a rounded power of ten. A literal may thus
come out one place away from the nearest double, and one beyond the largest double has no value.
-/
namespace Automation.Json

/-- The parts of a literal: sign, digits before the point, digits after it, and exponent. -/
structure Literal where
  negative : Bool
  before : List Char
  after : Option (List Char)
  exponent : Option Int

namespace Literal

/-- The largest significand that is kept exactly. -/
def significandLimit : Nat := Nat.pow 2 64

/-- Takes digits while the significand stays in range; the rest of them is returned. -/
def accumulate (significand : Nat) : List Char → Nat × List Char
  | [] => (significand, [])
  | c :: rest =>
    let next := significand * 10 + (c.toNat - 48)
    if next < significandLimit then accumulate next rest else (significand, c :: rest)

private def powerOfTen (power : Nat) : Nat :=
  match Double.ofDecimal false 1 power with
  | .finite _ units => units
  | _ => 0

/-- A significand times a power of ten, in steps of at most 308 places, each one rounded. Three
steps down bring every significand to zero. -/
def scaled? : (steps : Nat) → (units : Nat) → (power : Int) → Option Double
  | 0, _, _ => some Double.zero
  | steps + 1, units, power =>
    if power.natAbs ≤ 308 then
      let factor := powerOfTen power.natAbs
      let result := if 0 ≤ power then Double.product units factor else Double.quotient units factor
      if result.isFinite then some result else none
    else if units = 0 then some Double.zero
    else if 0 ≤ power then none
    else
      match Double.quotient units (powerOfTen 308) with
      | .finite _ smaller => scaled? steps smaller (power + 308)
      | _ => none

/-- The literal as a double, none if it is too large. -/
def double? (literal : Literal) : Option Double :=
  let (whole, overflow) := accumulate 0 literal.before
  let (significand, places) :=
    match literal.after with
    | none => (whole, 0)
    | some digits =>
      let (all, dropped) := accumulate whole digits
      (all, digits.length - dropped.length)
  let power := (overflow.length : Int) - (places : Int) + literal.exponent.getD 0
  match Double.ofInt significand with
  | .finite _ units =>
    (scaled? 4 units power).map fun d => if literal.negative then d.neg else d
  | _ => none

/-- The value of the literal: an integer if it is written as one and fits, else a double. -/
def value? (literal : Literal) : Option Json :=
  let n := Double.digitsValue literal.before
  if literal.after.isNone && literal.exponent.isNone
      && (if literal.negative then n ≤ Nat.pow 2 63 && n ≠ 0 else n < Nat.pow 2 64) then
    some (int (if literal.negative then -(n : Int) else n))
  else literal.double?.map real

def fraction? : List Char → Option (Option (List Char) × List Char)
  | '.' :: rest =>
    let digits := rest.takeWhile Char.isDigit
    if digits.isEmpty then none else some (some digits, rest.dropWhile Char.isDigit)
  | rest => some (none, rest)

/-- The sign of an exponent, and what follows it. -/
def exponentSign : List Char → Int × List Char
  | '+' :: rest => (1, rest)
  | '-' :: rest => (-1, rest)
  | rest => (1, rest)

def exponent? : List Char → Option (Option Int × List Char)
  | c :: rest =>
    if c == 'e' || c == 'E' then
      let (sign, rest) := exponentSign rest
      let digits := rest.takeWhile Char.isDigit
      if digits.isEmpty then none
      else some (some (sign * Double.digitsValue digits), rest.dropWhile Char.isDigit)
    else some (none, c :: rest)
  | [] => some (none, [])

/-- Whether a literal is negative, and what follows its sign. -/
def minus : List Char → Bool × List Char
  | '-' :: rest => (true, rest)
  | rest => (false, rest)

/-- Reads the literal at the front of a text that starts with a minus sign or a digit. A zero is
not followed by another digit. -/
def read? (chars : List Char) : Option (Literal × List Char) := do
  let (negative, chars) := minus chars
  let before := chars.takeWhile Char.isDigit
  if before.isEmpty || (before.head? == some '0' && before.length ≠ 1) then none
  else
    let (after, rest) ← fraction? (chars.dropWhile Char.isDigit)
    let (exponent, rest) ← exponent? rest
    some (⟨negative, before, after, exponent⟩, rest)

end Literal
end Automation.Json
