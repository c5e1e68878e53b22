import Automation.Behavior
import Automation.Execution
import Automation.Placeholder
import Automation.Workflow.Graph

/-!
# Running a workflow

The enabled nodes run one after the other, as they are stored or in the order of the connections.
Each is logged; its configuration is rendered and given to the behaviour of its template, and its
output is kept. A node whose template has no behaviour is logged only. A failure that may pass is
tried again after a pause that doubles every time; the first failure that stays ends the run.
-/
namespace Automation.Workflow

variable {η : Type}

/-- How often a node is tried again, and after which pause first. The tries are counted without a
bound here; a count in 32 bits is the same for all limits below the largest such number. -/
structure RetryPolicy where
  maxRetries : Nat
  baseDelay : Duration
  deriving DecidableEq, Inhabited

namespace RetryPolicy

/-- No retries unless something else is asked for. -/
def standard : RetryPolicy := ⟨0, Duration.ofMillis 100⟩

/-- The longest pause before another try. -/
def maxDelay : Duration := Duration.ofSeconds 60

/-- The pause before the given retry, counted from one. The factor has 32 bits, and where it or the
product leaves its range the longest pause is taken. -/
def delay (policy : RetryPolicy) (attempt : Nat) : Duration :=
  let factor := Nat.pow 2 (attempt - 1)
  if 32 < attempt then maxDelay
  else
    match policy.baseDelay.times? factor with
    | some length => length.min maxDelay
    | none => maxDelay

end RetryPolicy

/-- Why a node failed for good. -/
inductive NodeFailure where
  | fatal (nodeId message : String)
  | retriesExhausted (nodeId message : String)
  deriving DecidableEq

def NodeFailure.message : NodeFailure → String
  | fatal nodeId message => "node '" ++ nodeId ++ "' failed fatally: " ++ message
  | retriesExhausted nodeId message => "node '" ++ nodeId ++ "' exceeded retry limit: " ++ message

/-- Tries until it works, fails for good, or no retries are left; `failures` tries have failed
before. -/
def retrying {σ : Type} (policy : RetryPolicy) (nodeId : String)
    (attempt : Routine σ (Except NodeError Json)) :
    (left : Nat) → (failures : Nat) → Routine σ (Except NodeFailure Json)
  | left, failures => do
    match ← attempt with
    | .ok output => return .ok output
    | .error (.fatal message) => return .error (.fatal nodeId message)
    | .error (.retryable message) =>
      match left with
      | 0 => return .error (.retriesExhausted nodeId message)
      | left + 1 => do
        Routine.sleep (policy.delay (failures + 1))
        retrying policy nodeId attempt left (failures + 1)

inductive Order where
  | stored
  | topological
  deriving DecidableEq, Inhabited

/-- What a run needs besides the workflow. -/
structure Runner (η : Type) where
  behaviors : Dict String (Behavior η)
  order : Order
  retries : RetryPolicy

namespace Runner

/-- The nodes in the order of the run. -/
def orderedNodes (runner : Runner η) (w : Workflow) : Except GraphError (List Node) :=
  match runner.order with
  | .stored => .ok w.nodes
  | .topological => w.topologicalOrder.map fun ids => ids.filterMap w.node?

/-- What a run has to itself: its variables, and the execution that reports on it. -/
structure Notes where
  vars : Variables
  execution : Execution
  deriving Inhabited

/-- What a run works on: the world that it shares, and its own notes. -/
abbrev Desk (η : Type) := World η × Notes

namespace Desk

/-- Changes the execution at the present time. -/
def stamp (change : Execution → Instant → Execution) (desk : Desk η) : Desk η :=
  let (now, world) := desk.1.now
  (world, { desk.2 with execution := change desk.2.execution now })

def scope (desk : Desk η) : Scope η := (desk.1, desk.2.vars)

def withScope (desk : Desk η) (scope : Scope η) : Desk η :=
  (scope.1, { desk.2 with vars := scope.2 })

def setResult (nodeId : String) (output : Json) (desk : Desk η) : Desk η :=
  (desk.1, { desk.2 with execution := desk.2.execution.setResult nodeId output })

end Desk

def stamp (change : Execution → Instant → Execution) : Routine (Desk η) Unit :=
  Routine.modify (Desk.stamp change)

def log (level : Execution.Level) (nodeId : Option String) (message : String) :
    Routine (Desk η) Unit :=
  stamp fun execution now => execution.log now level nodeId message

/-- Runs one node; the result is the failure that ends the run, if there is one. -/
def runNode (runner : Runner η) (context : Context) (node : Node) :
    Routine (Desk η) (Option NodeFailure) := do
  log .info node.id ("Executing node: " ++ node.name)
  match runner.behaviors.get? node.templateId with
  | none =>
    log .info node.id ("Node '" ++ node.name ++ "' (" ++ node.templateId ++ ") logged only")
    return none
  | some behavior =>
    let config := Placeholder.renderValue context node.config
    let attempts := retrying runner.retries node.id (behavior config) runner.retries.maxRetries 0
    match ← attempts.within Desk.scope Desk.withScope with
    | .ok output =>
      Routine.modify (Desk.setResult node.id output)
      return none
    | .error failure =>
      log .error node.id ("Node '" ++ node.name ++ "' failed: " ++ failure.message)
      return some failure

/-- Runs the enabled nodes up to the first failure. -/
def runNodes (runner : Runner η) (context : Context) :
    List Node → Routine (Desk η) (Option NodeFailure)
  | [] => return none
  | node :: rest => do
    if node.enabled then
      match ← runNode runner context node with
      | none => runNodes runner context rest
      | some failure => return some failure
    else runNodes runner context rest

/-- The whole run on its desk. -/
def runOnDesk (runner : Runner η) (w : Workflow) (context : Context) : Routine (Desk η) Unit := do
  match runner.orderedNodes w with
  | .error e =>
    log .error none e.message
    stamp fun execution now => execution.fail now e.message
  | .ok nodes =>
    match ← runNodes runner context nodes with
    | none => stamp Execution.complete
    | some failure => stamp fun execution now => execution.fail now failure.message

/-- Runs a workflow into an execution that has just started. The variables are the run's own: it
starts from those of the workflow and returns what it made of them. -/
def run (runner : Runner η) (w : Workflow) (execution : Execution) (context : Context) :
    Routine (World η) (Execution × Variables) := do
  let ((), notes) ← (runner.runOnDesk w context).withOwn ⟨w.vars, execution⟩
  return (notes.execution, notes.vars)

end Runner
end Automation.Workflow
