import Automation.Engine.Error
import Automation.Exchange.Execution
import Automation.Template
import Automation.Workflow.Run

/-!
# The engine

An engine holds scripts and workflows and runs them. What never changes about it (its commands and
behaviours, its catalog, its limits, the words of the runtime) stands apart from its state: the two
tables and the storage behind them, the executions, and the world. Everything that the engine does
is a routine on this state, so any number of its operations can be under way side by side.
-/
namespace Automation

/-- Active and finished executions; the finished ones in the order in which they finished. -/
structure ExecutionLog where
  active : Dict Uuid Execution
  history : List Execution

namespace ExecutionLog

def empty : ExecutionLog := ⟨Dict.empty, []⟩

def begin (log : ExecutionLog) (e : Execution) : ExecutionLog :=
  { log with active := log.active.insert e.id e }

/-- Moves an execution from the active ones to the history, of which only the latest are kept. -/
def finish (log : ExecutionLog) (e : Execution) (limit : Nat) : ExecutionLog :=
  let all := log.history ++ [e]
  ⟨log.active.erase e.id, all.drop (all.length - limit)⟩

end ExecutionLog

structure Engine (η : Type) where
  registry : Registry η
  runner : Workflow.Runner η
  catalog : Catalog
  historyLimit : Nat
  /-- How the runtime speaks of a task that crashed, given its number and the message. -/
  crashReport : Nat → String → String

namespace Engine

/-- How many finished executions are kept unless something else is asked for. -/
def defaultHistoryLimit : Nat := 100

structure State (η : Type) where
  world : World η
  storage : Storage
  scripts : Table Script
  workflows : Table Workflow
  executions : ExecutionLog
  /-- How often a template was asked for that nobody knows; starts over after its largest value. -/
  unknownTemplates : UInt64

def scriptFormat : RowFormat Script := ⟨Script.toJson, Script.decode⟩
def workflowFormat : RowFormat Workflow := ⟨Workflow.toJson, Workflow.decode⟩

variable {η : Type}

namespace State

/-- The state of an engine that has just been opened and keeps nothing. -/
def start (world : World η) : State η :=
  ⟨world, Storage.empty, Table.transient "scripts", Table.transient "workflows",
    ExecutionLog.empty, 0⟩

/-- The state of an engine that has just been opened: the tables as they were last written. -/
def load (world : World η) (storage : Storage) (isPersistent : Bool) :
    Except EngineError (State η) := do
  let scripts ← (Table.load scriptFormat "scripts" isPersistent storage).mapError .database
  let workflows ← (Table.load workflowFormat "workflows" isPersistent storage).mapError .database
  .ok ⟨world, storage, scripts, workflows, ExecutionLog.empty, 0⟩

def withWorld (s : State η) (world : World η) : State η := { s with world }

/-- Takes a new identifier. -/
def takeId (s : State η) : Uuid × State η :=
  let (id, world) := s.world.takeId
  (id, { s with world })

/-- Reads the clock. -/
def now (s : State η) : Instant × State η :=
  let (time, world) := s.world.now
  (time, { s with world })

/-- The number of the task that crashed. -/
def takeTask (s : State η) : Nat × State η :=
  let (task, world) := s.world.takeTask
  (task, { s with world })

def changeScripts (change : Table.Change Script β) (s : State η) :
    Except StorageError β × State η :=
  let (result, scripts, storage) := change (s.scripts, s.storage)
  (result, { s with scripts, storage })

def changeWorkflows (change : Table.Change Workflow β) (s : State η) :
    Except StorageError β × State η :=
  let (result, workflows, storage) := change (s.workflows, s.storage)
  (result, { s with workflows, storage })

/-- The scripts from the oldest to the newest. -/
def scriptList (s : State η) : List Script :=
  s.scripts.list.mergeSort fun a b => a.createdAt.le b.createdAt

/-- The workflows from the oldest to the newest. -/
def workflowList (s : State η) : List Workflow :=
  s.workflows.list.mergeSort fun a b => a.createdAt.le b.createdAt

end State

/-- A routine on the engine's state that may end in an error. -/
abbrev Operation (η α : Type) := ExceptT EngineError (Routine (State η)) α

/-- One commit that may end in an error. -/
def attempt (step : State η → Except EngineError α × State η) : Operation η α :=
  Routine.atomically step

/-- One commit that may end in an error, or crash and leave the state as it was. -/
def attemptOrCrash (step : State η → Except String (Except EngineError α × State η)) :
    Operation η α :=
  Routine.atomicallyOrCrash step

/-- A routine as an operation that has no error. -/
def always (routine : Routine (State η) α) : Operation η α := ExceptT.lift routine

/-- An operation whose failure does not matter. -/
def regardless (operation : Operation η α) : Routine (State η) Unit := do
  let _ ← operation.run
  return ()

/-- A routine on the world only. -/
def onWorld (routine : Routine (World η) α) : Routine (State η) α :=
  routine.within State.world State.withWorld

/-- The usual words about a task that crashed. -/
def taskCrashed (task : Nat) (message : String) : String :=
  "task " ++ toString task ++ " panicked with message " ++ Text.quoted message

end Engine
end Automation
