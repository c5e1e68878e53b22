import Automation.Workflow

/-!
# Executions

One run of a workflow as it is reported: what its nodes returned, what they logged, and how it
ended. An execution is running until it is completed or has failed.
-/
namespace Automation

namespace Execution

inductive Status where
  | running
  | completed
  | failed
  | cancelled
  deriving DecidableEq, Inhabited

namespace Status

def text : Status → String
  | running => "running"
  | completed => "completed"
  | failed => "failed"
  | cancelled => "cancelled"

def all : List Status := [running, completed, failed, cancelled]

def ofText? (text : String) : Option Status := all.find? fun status => status.text == text

/-- The complaint about a text that names no status. -/
def unknownMessage (text : String) : String := "unknown execution status: " ++ text

end Status

inductive Level where
  | info
  | warning
  | error
  deriving DecidableEq, Inhabited

structure LogEntry where
  timestamp : Instant
  level : Level
  nodeId : Option String
  message : String
  deriving DecidableEq, Inhabited

end Execution

structure Execution where
  id : Uuid
  workflowId : Uuid
  startTime : Instant
  endTime : Option Instant
  status : Execution.Status
  results : Dict String Json
  logs : List Execution.LogEntry
  error : Option String
  deriving Inhabited

namespace Execution

def start (id workflowId : Uuid) (now : Instant) : Execution :=
  ⟨id, workflowId, now, none, .running, Dict.empty, [], none⟩

def log (e : Execution) (now : Instant) (level : Level) (nodeId : Option String)
    (message : String) : Execution :=
  { e with logs := e.logs ++ [⟨now, level, nodeId, message⟩] }

def complete (e : Execution) (now : Instant) : Execution :=
  { e with status := .completed, endTime := some now }

def fail (e : Execution) (now : Instant) (message : String) : Execution :=
  { e with status := .failed, error := some message, endTime := some now }

def setResult (e : Execution) (nodeId : String) (output : Json) : Execution :=
  { e with results := e.results.insert nodeId output }

def isFinished (e : Execution) : Bool := e.status != .running

end Execution
end Automation
