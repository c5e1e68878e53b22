import Automation.Number.Double

/-!
# Shortest decimal text

The decimal text of a double is the shortest one that reads back as the same double, and of those
the nearest. Grids of 1, 2, … 17 decimal digits are tried in turn: on each the two neighbours of the
value are read back, and the first grid with a hit decides. What is written around the digits is
laid down by a `Notation`.
-/
namespace Automation.Double

/-- A positive number as digits times a power of ten. -/
structure Scaled where
  digits : Nat
  power : Int
  deriving DecidableEq

/-- The power of ten of the first decimal digit. Shifted by 350 places even the smallest double
has digits before the point, and they can be counted. -/
def firstDigitPower (units : Nat) : Int :=
  ((units * Nat.pow 10 350 / one).repr.length : Int) - 351

/-- The numerator and denominator of `units` measured in powers of ten. -/
def measured (units : Nat) (power : Int) : Nat × Nat :=
  if 0 ≤ power then (units, Nat.pow 10 power.toNat * one)
  else (units * Nat.pow 10 (-power).toNat, one)

def readsBack (units : Nat) (s : Scaled) : Bool :=
  ofDecimal false s.digits s.power == finite false units

/-- The neighbour of `units` on the grid of the given power that reads back; the nearer if both
do, and the even one of two at the same distance. -/
def onGrid? (units : Nat) (power : Int) : Option Scaled :=
  let (num, den) := measured units power
  let below : Scaled := ⟨num / den, power⟩
  let above : Scaled := ⟨num / den + 1, power⟩
  match readsBack units below, readsBack units above with
  | true, true => some ⟨divRound num den, power⟩
  | true, false => some below
  | false, true => some above
  | false, false => none

/-- The shortest decimal form of a positive multiple. -/
def shortest (units : Nat) : Scaled :=
  let first := firstDigitPower units
  match (List.range 17).findSome? fun (extra : Nat) => onGrid? units (first - (extra : Int)) with
  | some scaled => scaled
  | none =>
    let (num, den) := measured units (first - 16)
    ⟨divRound num den, first - 16⟩

/-- How digits are laid out: which powers of ten of the first digit are written positionally, and
whether a whole number keeps a point and a zero. -/
structure Notation where
  isPositional : Int → Bool
  keepsPoint : Bool

/-- Numbers in JSON text: positional from 0.00001 up to 10¹⁶, always with a fraction; otherwise one
digit before the point and a signed exponent. -/
def exchange : Notation where
  isPositional power := -5 ≤ power && power < 16
  keepsPoint := true

/-- Numbers in messages: always positional, and whole numbers without a point. -/
def plain : Notation where
  isPositional _ := true
  keepsPoint := false

private def zeros (n : Nat) : List Char := List.replicate n '0'

/-- Digits with a point after the first `lead + 1` of them; a negative `lead` puts zeros before
them. -/
def positional (keepsPoint : Bool) (digits : List Char) (lead : Int) : List Char :=
  if lead < 0 then '0' :: '.' :: zeros ((-lead).toNat - 1) ++ digits
  else
    let count := lead.toNat + 1
    let before := digits.take count ++ zeros (count - digits.length)
    match digits.drop count with
    | [] => before ++ (if keepsPoint then ['.', '0'] else [])
    | after => before ++ '.' :: after

def exponential (digits : List Char) (lead : Int) : List Char :=
  let mantissa :=
    match digits with
    | [] => ['0']
    | first :: [] => [first]
    | first :: rest => first :: '.' :: rest
  let sign := if lead < 0 then '-' else '+'
  mantissa ++ 'e' :: sign :: lead.natAbs.repr.toList

/-- The digits without trailing zeros. -/
def significant (digits : Nat) : List Char :=
  (digits.repr.toList.reverse.dropWhile (· == '0')).reverse

def magnitudeText (layout : Notation) (units : Nat) : List Char :=
  if units = 0 then positional layout.keepsPoint ['0'] 0
  else
    let s := shortest units
    let lead := s.power + (s.digits.repr.length : Int) - 1
    let digits := significant s.digits
    if layout.isPositional lead then positional layout.keepsPoint digits lead
    else exponential digits lead

def text (layout : Notation) : Double → String
  | nan => "NaN"
  | infinite negative => if negative then "-inf" else "inf"
  | finite negative units =>
    String.ofList ((if negative then ['-'] else []) ++ magnitudeText layout units)

end Automation.Double
