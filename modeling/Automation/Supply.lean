/-!
# Supplies

A program takes some values from outside: fresh identifiers, the time of day, the roll of dice. Each
kind comes from a sequence that is fixed in advance and of which the next member is taken every
time, so that a run is a function of its supplies.
-/
namespace Automation

structure Supply (α : Type) where
  value : Nat → α
  used : Nat

namespace Supply

/-- Takes one value. -/
def take (s : Supply α) : α × Supply α := (s.value s.used, ⟨s.value, s.used + 1⟩)

/-- Takes several values, in the order of the sequence. -/
def takeMany (s : Supply α) : (count : Nat) → List α × Supply α
  | 0 => ([], s)
  | count + 1 =>
    let (values, rest) := s.take.2.takeMany count
    (s.take.1 :: values, rest)

end Supply
end Automation
