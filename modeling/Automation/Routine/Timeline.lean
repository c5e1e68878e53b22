import Automation.Routine

/-!
# Timelines

Several routines on one state, on a clock that counts milliseconds and takes no time of its own.
Every routine runs until it pauses; when all of them pause, the clock moves on to the first whose
pause is over. Of two that wake at the same time the one that fell asleep first goes first. Routines
are grouped into jobs, and what they end in is kept in the order in which they end.
-/
namespace Automation

/-- A routine that sleeps until a time. -/
structure Sleeper (σ α : Type) where
  due : Nat
  job : Nat
  part : Nat
  rest : Routine σ α

/-- What a routine of a job ended in; a crash leaves its message. -/
structure Ended (α : Type) where
  job : Nat
  part : Nat
  outcome : Except String α

structure Timeline (σ α : Type) where
  now : Nat
  sleepers : List (Sleeper σ α)
  ended : List (Ended α)

namespace Timeline

variable {σ α : Type}

def start : Timeline σ α := ⟨0, [], []⟩

/-- The time at which a pause that begins now is over: the clock shows whole milliseconds. -/
def after (t : Timeline σ α) (length : Duration) : Nat :=
  t.now + length.fullMillis

/-- Runs a routine of a job until it pauses or ends. -/
def run (t : Timeline σ α) (s : σ) (job part : Nat) (routine : Routine σ α) : Timeline σ α × σ :=
  match routine.advance s with
  | (.finished a, s) => ({ t with ended := t.ended ++ [⟨job, part, .ok a⟩] }, s)
  | (.crashed message, s) => ({ t with ended := t.ended ++ [⟨job, part, .error message⟩] }, s)
  | (.waiting length rest, s) =>
    ({ t with sleepers := t.sleepers ++ [⟨t.after length, job, part, rest⟩] }, s)

/-- Runs the routines of a job, numbered from the given one on, each until it pauses or ends. -/
def launch (t : Timeline σ α) (s : σ) (job : Nat) (part : Nat) :
    List (Routine σ α) → Timeline σ α × σ
  | [] => (t, s)
  | routine :: rest =>
    let (t, s) := t.run s job part routine
    t.launch s job (part + 1) rest

/-- The sleeper that wakes next, and the others. -/
def next? : List (Sleeper σ α) → Option (Sleeper σ α × List (Sleeper σ α))
  | [] => none
  | sleeper :: rest =>
    match next? rest with
    | none => some (sleeper, [])
    | some (first, others) =>
      if first.due < sleeper.due then some (first, sleeper :: others)
      else some (sleeper, rest)

/-- Moves the clock on to the next sleeper and runs it. Nothing happens if none wakes by the given
time. -/
def wake? (t : Timeline σ α) (s : σ) (latest : Option Nat) : Option (Timeline σ α × σ) :=
  match next? t.sleepers with
  | none => none
  | some (sleeper, others) =>
    if latest.any fun time => time < sleeper.due then none
    else
      let t := { t with now := max t.now sleeper.due, sleepers := others }
      some (t.run s sleeper.job sleeper.part sleeper.rest)

/-- What the routines of a job ended in so far. -/
def endings (t : Timeline σ α) (job : Nat) : List (Ended α) :=
  t.ended.filter fun e => e.job = job

/-- Wakes sleepers until so many routines of a job have ended. The fuel bounds the number of
awakenings. -/
def await (job count : Nat) : (fuel : Nat) → Timeline σ α → σ → Timeline σ α × σ
  | 0, t, s => (t, s)
  | fuel + 1, t, s =>
    if count ≤ (t.endings job).length then (t, s)
    else
      match t.wake? s none with
      | some (t, s) => await job count fuel t s
      | none => (t, s)

/-- Lets the clock run up to a time, sleepers that are due at that time included. -/
def passTo (time : Nat) : (fuel : Nat) → Timeline σ α → σ → Timeline σ α × σ
  | 0, t, s => ({ t with now := max t.now time }, s)
  | fuel + 1, t, s =>
    match t.wake? s (some time) with
    | some (t, s) => passTo time fuel t s
    | none => ({ t with now := max t.now time }, s)

end Timeline
end Automation
