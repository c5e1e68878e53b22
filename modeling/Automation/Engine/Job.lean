import Automation.Engine.Events

/-!
# Jobs

What an engine is asked to do is either one routine or a number of runs that start side by side and
are reported together. A job is a list of routines with a rule for what their results amount to.
-/
namespace Automation.Engine

variable {η α β : Type}

inductive Job (η α : Type) where
  | single (routine : Routine (State η) α)
  | sideBySide (start : Routine (State η) (List (Routine (State η) Result))) (report : Report → α)

/-- What one routine of a job ends in. -/
inductive Part (α : Type) where
  | whole (value : α)
  | one (result : Result)

namespace Job

def map (f : α → β) : Job η α → Job η β
  | single routine => single (f <$> routine)
  | sideBySide start report => sideBySide start (f ∘ report)

/-- The routines of a job. -/
def parts : Job η α → Routine (State η) (List (Routine (State η) (Part α)))
  | single routine => return [Part.whole <$> routine]
  | sideBySide start _ => do
    let runs ← start
    return runs.map fun run => Part.one <$> run

/-- What the parts of a job amount to, given in the order in which they ended; nothing if one of
them crashed. -/
def collect (job : Job η α) (outcomes : List (Except String (Part α))) : Option α :=
  match job, outcomes.mapM Except.toOption with
  | single _, some [.whole a] => some a
  | sideBySide _ report, some parts => some <| report <| Report.ofResults <| parts.filterMap fun
    | .one result => some result
    | .whole _ => none
  | _, _ => none

end Job
end Automation.Engine
