/-!
# Counters

Runs are counted in 64 bits. A counter at its largest value cannot go on: counting one more is a
crash.
-/
namespace Automation.Counter

def largest : UInt64 := 18446744073709551615

/-- What the crash of a full counter says. -/
def overflow : String := "attempt to add with overflow"

/-- Counts one more. -/
def next (count : UInt64) : Except String UInt64 :=
  if count = largest then .error overflow else .ok (count + 1)

end Automation.Counter
