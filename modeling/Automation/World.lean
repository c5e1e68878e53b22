import Automation.Routine
import Automation.Supply
import Automation.Time.Instant
import Automation.Uuid

/-!
# The world of a run

What runs share: the state of the command handlers, which belongs to the systems that own the
commands, the number of calls of unknown commands, and the supplies of identifiers, times, random
numbers and the numbers of the tasks that the runtime keeps. The number of unknown calls starts over
after its largest value.
-/
namespace Automation

structure World (η : Type) where
  handlers : η
  unknownDispatches : UInt64
  ids : Supply Uuid
  clock : Supply Instant
  dice : Supply Nat
  tasks : Supply Nat

namespace World

variable {η : Type}

def takeId (w : World η) : Uuid × World η :=
  let (id, ids) := w.ids.take
  (id, { w with ids })

/-- Reads the clock. -/
def now (w : World η) : Instant × World η :=
  let (time, clock) := w.clock.take
  (time, { w with clock })

/-- A whole number from `low` to `high`. -/
def roll (w : World η) (low high : Int) : Int × World η :=
  let (n, dice) := w.dice.take
  (low + (n : Int) % (high - low + 1), { w with dice })

/-- The number of a task. -/
def takeTask (w : World η) : Nat × World η :=
  let (task, tasks) := w.tasks.take
  (task, { w with tasks })

def countUnknown (w : World η) : World η :=
  { w with unknownDispatches := w.unknownDispatches + 1 }

def withHandlers (w : World η) (handlers : η) : World η := { w with handlers }

end World
end Automation
