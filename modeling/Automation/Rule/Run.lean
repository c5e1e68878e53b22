import Automation.Command
import Automation.Number.Shortest
import Automation.Placeholder
import Automation.Program

/-!
# Running a rule

The actions of a rule are carried out one after the other, with the placeholders of their text
arguments filled in. Waiting is built in; every other action calls a command. An unknown command is
noted and passed over, and the first action that fails ends the run.
-/
namespace Automation

namespace Rule

/-- The action that failed, and why. -/
structure Failure where
  index : Nat
  command : String
  message : String
  deriving DecidableEq, Inhabited

def Failure.text (failure : Failure) : String :=
  "action #" ++ toString failure.index ++ " '" ++ failure.command ++ "' failed: "
    ++ failure.message

/-- How a run went: how many actions finished, the unknown commands among them, and what ended it
early. -/
structure Outcome where
  completed : Nat
  unknown : List String
  failure : Option Failure
  deriving DecidableEq, Inhabited

namespace Outcome

def none : Outcome := ⟨0, [], .none⟩

def succeeded (outcome : Outcome) : Bool := outcome.failure.isNone

/-- A run that died before it could report anything. -/
def aborted (reason : String) : Outcome :=
  ⟨0, [], some ⟨0, "", "run aborted: " ++ reason⟩⟩

end Outcome
end Rule

namespace Argument

/-- The argument with its placeholders filled in. -/
def render (context : Context) : Argument → Argument
  | string s => .string (Placeholder.render context s)
  | number d => .number d

end Argument

namespace Action

variable {η : Type}

/-- The name of the action that pauses the run. -/
def waitName : String := "wait"

/-- How long a pause is asked for, or what is wrong with the question. -/
def waitLength (args : List Argument) : Except String Duration :=
  match args.head?.bind Argument.number? with
  | none => .error "wait expects a number of seconds"
  | some seconds =>
    match Duration.ofSeconds? seconds with
    | none => .error ("invalid wait of " ++ seconds.text Double.plain ++ " seconds")
    | some length => .ok length

/-- Carries out one action whose arguments are ready. -/
def perform (registry : Registry η) (command : String) (args : List Argument) :
    Routine (World η) (Except String Dispatch) :=
  if command = waitName then
    match waitLength args with
    | .error message => return .error message
    | .ok length => do
      Routine.sleep length
      return .ok (.handled .null)
  else do
    let result ← registry.dispatch command (args.map Argument.toJson)
    return result.mapError CommandError.message

end Action

namespace Rule

variable {η : Type}

/-- Goes on with the actions that are left. -/
def runFrom (registry : Registry η) (context : Context) (outcome : Outcome) :
    List Action → Routine (World η) Outcome
  | [] => return outcome
  | action :: rest => do
    let args := action.arguments.map (Argument.render context)
    match ← Action.perform registry action.command args with
    | .error message =>
      return { outcome with failure := some ⟨outcome.completed, action.command, message⟩ }
    | .ok (.handled _) =>
      runFrom registry context { outcome with completed := outcome.completed + 1 } rest
    | .ok .unknown =>
      runFrom registry context
        ⟨outcome.completed + 1, outcome.unknown ++ [action.command], outcome.failure⟩ rest

def run (registry : Registry η) (context : Context) (rule : Rule) : Routine (World η) Outcome :=
  runFrom registry context Outcome.none rule.actions

end Rule
end Automation
