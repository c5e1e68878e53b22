import Automation.Dict
import Automation.Json.Basic
import Automation.Text.Quoted
import Automation.World

/-!
# Commands

Commands belong to other systems, which register a handler under each name. Handlers take their
arguments by position. A call of a name without a handler is no error: nothing runs, and the call
is counted.
-/
namespace Automation

/-- Why a command failed. -/
inductive CommandError where
  | invalidArguments (reason : String)
  | failed (reason : String)
  | other (reason : String)
  deriving DecidableEq

def CommandError.message : CommandError → String
  | invalidArguments reason => "invalid arguments: " ++ reason
  | failed reason => reason
  | other reason => reason

abbrev Handler (η : Type) := List Json → Routine η (Except CommandError Json)

structure Registry (η : Type) where
  handlers : Dict String (Handler η)

/-- What came of a call that did not fail. -/
inductive Dispatch where
  | handled (output : Json)
  | unknown
  deriving Inhabited

namespace Registry

variable {η : Type}

def empty : Registry η := ⟨Dict.empty⟩

/-- Adds a handler or replaces the one of that name. -/
def register (registry : Registry η) (name : String) (handler : Handler η) : Registry η :=
  ⟨registry.handlers.insert name handler⟩

def ofList (handlers : List (String × Handler η)) : Registry η :=
  handlers.foldl (fun registry entry => registry.register entry.1 entry.2) empty

def contains (registry : Registry η) (name : String) : Bool := registry.handlers.contains name

/-- The registered names in their order. -/
def names (registry : Registry η) : List String :=
  registry.handlers.keys.mergeSort fun a b => !(b < a)

/-- A description of the registry for its keepers. -/
def describe (registry : Registry η) (unknownDispatches : UInt64) : String :=
  "CommandRegistry \x7b commands: ["
    ++ String.intercalate ", " (registry.names.map Text.quoted)
    ++ "], unknown_dispatches: " ++ toString unknownDispatches ++ " \x7d"

/-- Calls a command. -/
def dispatch (registry : Registry η) (name : String) (args : List Json) :
    Routine (World η) (Except CommandError Dispatch) :=
  match registry.handlers.get? name with
  | none => do
    Routine.modify World.countUnknown
    return .ok .unknown
  | some handler => do
    let result ← (handler args).within World.handlers World.withHandlers
    return result.map .handled

end Registry
end Automation
