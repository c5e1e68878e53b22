import Automation.Time.Duration

/-!
# Routines

A routine works on a state that it shares with others. It touches the state only in commits, each
of which happens at once: a commit replaces the state and hands the state before it to what
follows. Between its commits a routine can pause, and it can crash instead of finishing. Routines
are trees, so everything a routine may do can be read off it, whatever the others do to the state
between its commits.
-/
namespace Automation

inductive Routine (σ α : Type) where
  | done (value : α)
  | crash (message : String)
  | commit (update : σ → σ) (next : σ → Routine σ α)
  | pause (length : Duration) (next : Routine σ α)

namespace Routine

variable {σ τ α β : Type}

instance [Inhabited α] : Inhabited (Routine σ α) := ⟨done default⟩

/-- One routine after another. -/
def bind : Routine σ α → (α → Routine σ β) → Routine σ β
  | done a, f => f a
  | crash message, _ => crash message
  | commit update next, f => commit update fun s => (next s).bind f
  | pause length next, f => pause length (next.bind f)

instance : Monad (Routine σ) where
  pure := done
  bind := bind

/-- One commit with a result. -/
def atomically (step : σ → α × σ) : Routine σ α :=
  commit (fun s => (step s).2) fun s => done (step s).1

/-- One commit that may crash, and then leaves the state as it was. -/
def atomicallyOrCrash (step : σ → Except String (α × σ)) : Routine σ α :=
  commit
    (fun s => match step s with
      | .ok (_, changed) => changed
      | .error _ => s)
    fun s => match step s with
      | .ok (a, _) => done a
      | .error message => crash message

/-- A look at the state. -/
def read (view : σ → α) : Routine σ α :=
  commit id fun s => done (view s)

def modify (update : σ → σ) : Routine σ Unit :=
  commit update fun _ => done ()

def sleep (length : Duration) : Routine σ Unit :=
  pause length (done ())

/-- A routine that cannot crash: the message of a crash is its result. -/
def guarded : Routine σ α → Routine σ (Except String α)
  | done a => done (.ok a)
  | crash message => done (.error message)
  | commit update next => commit update fun s => (next s).guarded
  | pause length next => pause length next.guarded

/-- A routine on a part of the state. -/
def within (part : τ → σ) (replace : τ → σ → τ) : Routine σ α → Routine τ α
  | done a => done a
  | crash message => crash message
  | commit update next =>
    commit (fun t => replace t (update (part t))) fun t => (next (part t)).within part replace
  | pause length next => pause length (next.within part replace)

/-- A routine with something of its own beside the shared state; what it makes of that is returned
with the result. -/
def withOwn (own : τ) : Routine (σ × τ) α → Routine σ (α × τ)
  | done a => done (a, own)
  | crash message => crash message
  | commit update next =>
    commit (fun s => (update (s, own)).1) fun s => (next (s, own)).withOwn (update (s, own)).2
  | pause length next => pause length (next.withOwn own)

/-- How far a routine comes without waiting. -/
inductive Standing (σ α : Type) where
  | finished (value : α)
  | crashed (message : String)
  | waiting (length : Duration) (rest : Routine σ α)

/-- Runs a routine up to its next pause; a pause of no length is none. -/
def advance : Routine σ α → σ → Standing σ α × σ
  | done a, s => (.finished a, s)
  | crash message, s => (.crashed message, s)
  | commit update next, s => (next s).advance (update s)
  | pause length next, s =>
    if length.nanos = 0 then next.advance s else (.waiting length next, s)

/-- What becomes of a routine that has the state to itself. -/
structure Ending (σ α : Type) where
  outcome : Except String α
  state : σ
  pauses : List Duration

/-- How many milliseconds went by: every pause ends with a whole one. -/
def Ending.elapsed (ending : Ending σ α) : Nat :=
  (ending.pauses.map Duration.fullMillis).foldr (· + ·) 0

/-- Runs a routine that has the state to itself. -/
def runAlone : Routine σ α → σ → Ending σ α
  | done a, s => ⟨.ok a, s, []⟩
  | crash message, s => ⟨.error message, s, []⟩
  | commit update next, s => (next s).runAlone (update s)
  | pause length next, s =>
    let ending := next.runAlone s
    { ending with pauses := length :: ending.pauses }

end Routine
end Automation
