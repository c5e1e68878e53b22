/-!
# Double-precision numbers

Every finite double is a whole multiple of 2⁻¹⁰⁷⁴, the distance between the smallest of them, so a
finite double is kept as its sign and that multiple. Comparison, truncation and the test for whole
numbers are then arithmetic on natural numbers, and rounding is one division. There is a single
not-a-number, and the two zeros are told apart by their sign only.
-/
namespace Automation

inductive Double where
  | nan
  | infinite (negative : Bool)
  /-- The value `units · 2⁻¹⁰⁷⁴`, negated if `negative`. -/
  | finite (negative : Bool) (units : Nat)
  deriving DecidableEq, Inhabited

namespace Double

/-- The multiple that stands for the number one. -/
def one : Nat := Nat.pow 2 1074

/-- The first multiple that is too large to be finite, standing for 2¹⁰²⁴. -/
def limit : Nat := Nat.pow 2 2098

/-- How many binary digits a number has; zero has none. -/
def bitLength (n : Nat) : Nat :=
  if n = 0 then 0 else n.log2 + 1

/-- A quotient to the nearest whole number, a half going to the even neighbour. -/
def divRound (num den : Nat) : Nat :=
  let quotient := num / den
  let rest := 2 * (num % den)
  if rest < den then quotient
  else if den < rest then quotient + 1
  else quotient + quotient % 2

/-- The distance between neighbouring doubles at `units`: 53 binary digits are kept. -/
def grain (units : Nat) : Nat :=
  Nat.pow 2 (bitLength units - 53)

/-- The double nearest to `num / den` units. -/
def ofUnits (negative : Bool) (num den : Nat) : Double :=
  let step := grain (num / den)
  let units := divRound num (den * step) * step
  if units < limit then finite negative units else infinite negative

def zero : Double := finite false 0

/-- The double nearest to `digits · 10 ^ exponent`. The two bounds only spare the work of powers
that are far outside the range of doubles. -/
def ofDecimal (negative : Bool) (digits : Nat) (exponent : Int) : Double :=
  if digits = 0 then finite negative 0
  else if 400 < exponent then infinite negative
  else if exponent + (bitLength digits : Int) < -400 then finite negative 0
  else if 0 ≤ exponent then ofUnits negative (digits * Nat.pow 10 exponent.toNat * one) 1
  else ofUnits negative (digits * one) (Nat.pow 10 (-exponent).toNat)

def ofInt (n : Int) : Double :=
  ofUnits (n < 0) (n.natAbs * one) 1

def neg : Double → Double
  | nan => nan
  | infinite negative => infinite !negative
  | finite negative units => finite (!negative) units

def isFinite : Double → Bool
  | finite _ _ => true
  | _ => false

/-- Where a number lies on the line of units, infinities at the ends; not-a-number lies nowhere. -/
def position : Double → Option Int
  | nan => none
  | infinite negative => some (if negative then -(limit : Int) else limit)
  | finite negative units => some (if negative then -(units : Int) else units)

/-- Compares two numbers by their positions; nothing holds of not-a-number. -/
def compareBy (test : Int → Int → Bool) (a b : Double) : Bool :=
  match a.position, b.position with
  | some p, some q => test p q
  | _, _ => false

def lt (a b : Double) : Bool := compareBy (· < ·) a b
def le (a b : Double) : Bool := compareBy (· ≤ ·) a b

/-- Numerical equality: the zeros are equal, and not-a-number differs from itself. -/
def equals (a b : Double) : Bool := compareBy (· == ·) a b

/-- The part before the point, toward zero. -/
def truncated : Double → Option Int
  | finite negative units =>
    let magnitude : Int := (units / one : Nat)
    some (if negative then -magnitude else magnitude)
  | _ => none

/-- The number as an integer, if it is one. -/
def whole? : Double → Option Int
  | d@(finite _ units) => if units % one = 0 then d.truncated else none
  | _ => none

/-- The part before the point, brought into the range of 64-bit integers; zero for not-a-number. -/
def clamped : Double → Int
  | nan => 0
  | infinite negative => if negative then -0x8000000000000000 else 0x7fffffffffffffff
  | d@(finite _ _) => max (-0x8000000000000000) (min 0x7fffffffffffffff (d.truncated.getD 0))

/-- The product of two magnitudes given in units, rounded. -/
def product (a b : Nat) : Double :=
  ofUnits false (a * b) one

/-- The quotient of two magnitudes given in units, rounded. -/
def quotient (a b : Nat) : Double :=
  ofUnits false (a * one) b

/-- The 64 bits of the interchange format: sign, eleven bits of exponent, 52 of fraction. -/
def toBits : Double → Nat
  | nan => 0x7ff8000000000000
  | infinite negative => signBit negative + 0x7ff0000000000000
  | finite negative units =>
    let shift := bitLength units - 53
    if bitLength units < 53 then signBit negative + units
    else signBit negative + (shift + 1) * Nat.pow 2 52 + (units / Nat.pow 2 shift - Nat.pow 2 52)
where
  signBit (negative : Bool) : Nat := if negative then Nat.pow 2 63 else 0

end Double
end Automation
