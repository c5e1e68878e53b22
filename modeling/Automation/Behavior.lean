import Automation.Command
import Automation.Number.Shortest
import Automation.Workflow

/-!
# Node behaviours

What a node does is looked up under its template. A behaviour is given the node's configuration with
all placeholders filled in; it may call commands, pause, and set variables of its run. The built-in
ones call a command with fields of the configuration as arguments, pause, draw a number, set a
variable, and log.
-/
namespace Automation

/-- Why a node failed, and whether trying again may help. -/
inductive NodeError where
  | retryable (reason : String)
  | fatal (reason : String)
  deriving DecidableEq

def NodeError.message : NodeError → String
  | retryable reason => "retryable node error: " ++ reason
  | fatal reason => "fatal node error: " ++ reason

/-- What a behaviour works on: the world, and the variables of its own run. -/
abbrev Scope (η : Type) := World η × Variables

abbrev Behavior (η : Type) := Json → Routine (Scope η) (Except NodeError Json)

namespace Behavior

variable {η : Type}

/-- A routine that leaves the variables alone. -/
def onWorld (routine : Routine (World η) α) : Routine (Scope η) α :=
  routine.within Prod.fst fun scope world => (world, scope.2)

def setVariable (name : String) (value : Json) : Routine (Scope η) Unit :=
  Routine.modify fun scope => (scope.1, scope.2.insert name value)

/-- A number in the configuration, or a text that reads as one. -/
def numberField? (config : Json) (key : String) : Option Double :=
  match config.field? key with
  | some (.int n) => some (Double.ofInt n)
  | some (.real d) => some d
  | some (.string s) => Double.ofTrimmed? s
  | _ => none

def textField? (config : Json) (key : String) : Option String :=
  (config.field? key).bind Json.text?

/-- A text in the configuration that says something. -/
def nameField? (config : Json) (key : String) : Option String :=
  (textField? config key).filter fun name => !name.isEmpty

/-- Fields of the configuration as positional arguments; fields without a value in between are
null, those at the end are dropped. -/
def forwardedArguments (fields : List String) (config : Json) : List Json :=
  let values := fields.map fun field => (config.field? field).getD .null
  (values.reverse.dropWhile Json.isNull).reverse

/-- Calls a command; it does no harm if nobody knows it. -/
def forward (registry : Registry η) (command : String) (fields : List String) : Behavior η :=
  fun config => do
    match ← onWorld (registry.dispatch command (forwardedArguments fields config)) with
    | .ok (.handled output) => return .ok output
    | .ok .unknown => return .ok .null
    | .error e => return .error (.fatal e.message)

/-- Pauses for the configured seconds, or not at all. -/
def delay : Behavior η := fun config =>
  let seconds := (numberField? config "seconds").getD Double.zero
  match Duration.ofSeconds? seconds with
  | none =>
    return .error (.fatal ("invalid delay of " ++ seconds.text Double.plain ++ " seconds"))
  | some length => do
    if length.nanos ≠ 0 then Routine.sleep length
    return .ok (.object [("waitedMs", .ofNat (length.millis % Nat.pow 2 64))])

/-- Draws a whole number between two bounds, given in either order, and may keep it in a
variable. -/
def randomNumber : Behavior η := fun config => do
  let a := ((numberField? config "min").map Double.clamped).getD 1
  let b := ((numberField? config "max").map Double.clamped).getD 100
  let value ← onWorld (Routine.atomically fun world => world.roll (min a b) (max a b))
  if let some name := nameField? config "variable" then setVariable name (.int value)
  return .ok (.object [("value", .int value)])

def assign : Behavior η := fun config => do
  match nameField? config "name" with
  | none => return .error (.fatal "set-variable requires a 'name'")
  | some name =>
    let value := (config.field? "value").getD .null
    setVariable name value
    return .ok value

def log : Behavior η := fun config =>
  return .ok (.object [("message", .string ((textField? config "message").getD ""))])

/-- The behaviours that are always there. -/
def builtin (registry : Registry η) : Dict String (Behavior η) := Dict.ofList
  [("switch-scene", forward registry "switchScene" ["sceneName"]),
    ("play-sound", forward registry "playSound" ["sound", "volume"]),
    ("show-alert", forward registry "showAlert" ["title", "message", "duration"]),
    ("speak", forward registry "speak" ["text"]), ("delay", delay),
    ("random-number", randomNumber), ("set-variable", assign), ("log", log)]

end Behavior
end Automation
