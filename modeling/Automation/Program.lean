import Automation.Json.Basic
import Automation.Trigger

/-!
# Programs

The meaning of a script: its rules in the order of the text, each a trigger with the actions it
sets off. An action names a command and gives its arguments by position.
-/
namespace Automation

inductive Argument where
  | number (value : Double)
  | string (value : String)
  deriving DecidableEq, Inhabited

namespace Argument

def text? : Argument → Option String
  | string s => some s
  | number _ => none

/-- The argument as a number; a text counts if it can be read as one. -/
def number? : Argument → Option Double
  | number d => some d
  | string s => Double.ofTrimmed? s

/-- The value handed to a command: whole numbers below 2⁶³ in magnitude become integers. -/
def toJson : Argument → Json
  | string s => .string s
  | number d =>
    match d.whole? with
    | some n => if n.natAbs < Nat.pow 2 63 then .int n else Json.ofDouble d
    | none => Json.ofDouble d

end Argument

structure Action where
  command : String
  arguments : List Argument
  deriving DecidableEq, Inhabited

structure Rule where
  trigger : Trigger
  actions : List Action
  deriving DecidableEq, Inhabited

structure Program where
  rules : List Rule
  deriving DecidableEq, Inhabited

namespace Program

def actions (program : Program) : List Action :=
  program.rules.flatMap Rule.actions

/-- The names of the commands, each where it is first used. -/
def commands (program : Program) : List String :=
  (program.actions.map Action.command).foldl
    (fun seen command => if seen.contains command then seen else seen ++ [command]) []

end Program
end Automation
