import Automation.Number.Double

/-!
# Durations

A length of time in whole nanoseconds. The longest duration has one nanosecond less than 2⁶⁴
seconds; the operations that can leave this range say so.
-/
namespace Automation

structure Duration where
  nanos : Nat
  deriving DecidableEq, Inhabited

namespace Duration

def zero : Duration := ⟨0⟩

def nanosPerSecond : Nat := 1000000000

/-- The first number of nanoseconds that is no duration. -/
def limit : Nat := Nat.pow 2 64 * nanosPerSecond

def ofMillis (n : Nat) : Duration := ⟨n * 1000000⟩

def ofSeconds (n : Nat) : Duration := ⟨n * nanosPerSecond⟩

/-- The whole milliseconds of a duration. -/
def millis (d : Duration) : Nat := d.nanos / 1000000

/-- The first whole number of milliseconds that is not shorter. -/
def fullMillis (d : Duration) : Nat := (d.nanos + 999999) / 1000000

/-- A number of seconds to the nearest nanosecond. Negative numbers, numbers from 2⁶⁴ on and
not-a-number are refused; a negative zero is zero. -/
def ofSeconds? : Double → Option Duration
  | .nan => none
  | .infinite _ => none
  | .finite negative units =>
    if negative && units ≠ 0 then none
    else if Nat.pow 2 64 * Double.one ≤ units then none
    else some ⟨Double.divRound (units * nanosPerSecond) Double.one⟩

/-- The product with a number, unless it leaves the range. -/
def times? (d : Duration) (factor : Nat) : Option Duration :=
  if d.nanos * factor < limit then some ⟨d.nanos * factor⟩ else none

def min (a b : Duration) : Duration := if a.nanos ≤ b.nanos then a else b

def add (a b : Duration) : Duration := ⟨a.nanos + b.nanos⟩

end Duration
end Automation
