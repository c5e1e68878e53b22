import Automation.Engine.Scripts
import Automation.Workflow.Conversion

/-!
# The workflows of an engine
-/
namespace Automation.Engine

variable {η : Type}

/-- Stores a workflow as it is. -/
def insertWorkflow (w : Workflow) : Operation η Workflow :=
  attempt fun s =>
    let (result, s) := s.changeWorkflows (Table.insert workflowFormat w.id w)
    ((result.map fun () => w).mapError .database, s)

/-- Makes something under a new identifier at the present time. -/
def fresh (make : Uuid → Instant → α) : Operation η α :=
  attempt fun s =>
    let (id, s) := s.takeId
    let (now, s) := s.now
    (.ok (make id now), s)

def createWorkflow (name : String) (description : Option String) (trigger : Trigger) :
    Operation η Workflow := do
  let w ← fresh fun id now => { Workflow.create id now name trigger with description }
  insertWorkflow w

def getWorkflow (id : Uuid) : Operation η Workflow :=
  Routine.read fun s => (s.workflows.get id).mapError (.ofStorage (.workflowNotFound id))

/-- Every workflow, the oldest first. -/
def listWorkflows : Routine (State η) (List Workflow) := Routine.read State.workflowList

/-- Changes a workflow and returns what the change makes of it. -/
def changeWorkflow (id : Uuid) (change : Workflow → β × Workflow) : Operation η β :=
  attempt fun s =>
    let (result, s) := s.changeWorkflows (Table.update workflowFormat id change)
    (result.mapError (.ofStorage (.workflowNotFound id)), s)

def updateWorkflow (id : Uuid) (patch : Workflow.Patch) : Operation η Workflow :=
  changeWorkflow id fun w => (w.patched patch, w.patched patch)

def deleteWorkflow (id : Uuid) : Operation η Unit :=
  attempt fun s =>
    let (result, s) := s.changeWorkflows (Table.delete workflowFormat id)
    ((result.map fun _ => ()).mapError (.ofStorage (.workflowNotFound id)), s)

/-- Stores a copy that has never been run, under a new identifier. -/
def duplicateWorkflow (id : Uuid) : Operation η Workflow := do
  let w ← getWorkflow id
  let copy ← fresh w.copy
  insertWorkflow copy

/-- Adds a node of a template. A template that nobody knows is counted and adds nothing. -/
def addNode (engine : Engine η) (id : Uuid) (templateId : String) (position : Point) :
    Operation η (Option Node) := do
  match engine.catalog.get? templateId with
  | none =>
    attempt fun s => (.ok (), { s with unknownTemplates := s.unknownTemplates + 1 })
    let _ ← getWorkflow id
    return none
  | some template =>
    let node ← fresh fun nodeId _ => Workflow.nodeOfTemplate nodeId template position
    changeWorkflow id fun w => ((), w.addNode node)
    return some node

/-- Gives a change of one node its place in a change of a workflow. -/
def onNode (change : Option (Node × Workflow)) (w : Workflow) : Option Node × Workflow :=
  match change with
  | some (node, changed) => (some node, changed)
  | none => (none, w)

def orNodeNotFound (id : Uuid) (nodeId : String) (node : Option Node) : Operation η Node :=
  match node with
  | some node => pure node
  | none => throw (.nodeNotFound id nodeId)

def updateNode (id : Uuid) (nodeId : String) (patch : Node.Patch) : Operation η Node := do
  let node ← changeWorkflow id fun w => onNode (w.updateNode? nodeId (·.patched patch)) w
  orNodeNotFound id nodeId node

/-- Removes a node and the connections that touch it. -/
def removeNode (id : Uuid) (nodeId : String) : Operation η Node := do
  let node ← changeWorkflow id fun w => onNode (w.removeNode? nodeId) w
  orNodeNotFound id nodeId node

def connect (id : Uuid) (source target : String) (sourceHandle targetHandle : Option String) :
    Operation η Connection := do
  let connection ← fresh fun connectionId _ =>
    (⟨connectionId.text, source, target, sourceHandle, targetHandle⟩ : Connection)
  let result ← changeWorkflow id fun w =>
    match w.connect connection with
    | .ok changed => (.ok connection, changed)
    | .error e => (.error (.graph e), w)
  (result : Except EngineError Connection)

/-- Removes a connection; the result says whether there was one. -/
def disconnect (id : Uuid) (connectionId : String) : Operation η Bool :=
  changeWorkflow id fun w => (w.hasConnection connectionId, w.disconnect connectionId)

def setVariable (id : Uuid) (name : String) (value : Json) : Operation η Unit :=
  changeWorkflow id fun w => ((), w.setVariable name value)

/-- Counts a run of a workflow at a given time and takes over its variables; a full counter
crashes. -/
def recordWorkflowRun (id : Uuid) (time : Instant) (vars : Variables) : Operation η Unit :=
  attemptOrCrash fun s => do
    let (result, workflows, storage) ←
      Table.updateOrCrash workflowFormat id (·.recordRun time vars) (s.workflows, s.storage)
    return (result.mapError (.ofStorage (.workflowNotFound id)), { s with workflows, storage })

/-- Stores the workflow that a script's first rule becomes. -/
def convertScript (engine : Engine η) (id : Uuid) : Operation η Workflow := do
  let script ← getScript id
  let w ← attempt fun s =>
    let (now, s) := s.now
    match Workflow.ofScript script engine.catalog now s.world.ids with
    | .ok (w, ids) => (.ok w, { s with world := { s.world with ids } })
    | .error e => (.error e, s)
  insertWorkflow w

/-- The text that another engine can import. -/
def exportWorkflow (id : Uuid) : Operation η String := do
  let w ← getWorkflow id
  return w.toJson.pretty

/-- The workflow that an exported text says, if it says one with a sound graph. -/
def importable? (text : String) : Option Workflow :=
  match Workflow.decode (Document.ofText text) with
  | .error _ => none
  | .ok w =>
    match w.checkGraph with
    | .ok () => some w
    | .error _ => none

/-- Stores an exported workflow under a new identifier; nothing comes of a text that cannot be
imported, nor of a workflow that cannot be stored. -/
def importWorkflow (text : String) : Routine (State η) (Option Workflow) :=
  match importable? text with
  | none => return none
  | some w => do
    let stored : Operation η Workflow := do
      let w ← fresh fun id now => { w with id, createdAt := now }
      insertWorkflow w
    return (← stored.run).toOption

/-- Starts an execution of a workflow. -/
def beginExecution (workflowId : Uuid) : Routine (State η) Execution :=
  Routine.atomically fun s =>
    let (id, s) := s.takeId
    let (now, s) := s.now
    let e := Execution.start id workflowId now
    (e, { s with executions := s.executions.begin e })

/-- What is reported of an execution that crashed: it has failed, and what it did is lost. -/
def abortExecution (engine : Engine η) (e : Execution) (message : String) :
    Routine (State η) Execution :=
  Routine.atomically fun s =>
    let (task, s) := s.takeTask
    let reason := "execution aborted: " ++ engine.crashReport task message
    let (logged, s) := s.now
    let (ended, s) := s.now
    ((e.log logged .error none reason).fail ended reason, s)

/-- Moves an execution to the history. -/
def archiveExecution (limit : Nat) (e : Execution) : Routine (State η) Unit :=
  Routine.modify fun s => { s with executions := s.executions.finish e limit }

/-- Runs a workflow; a crash fails its execution and leaves the variables as they were. -/
def runToEnd (engine : Engine η) (w : Workflow) (started : Execution) (context : Context) :
    Routine (State η) (Execution × Variables) := do
  match ← (onWorld (engine.runner.run w started context)).guarded with
  | .ok result => return result
  | .error message => return (← engine.abortExecution started message, w.vars)

/-- Runs a workflow to its end. The execution is active while it runs; then the run is counted, its
variables are written back, and the execution joins the history. A crash of the count comes before
that, so the execution stays active. -/
def executeWorkflow (engine : Engine η) (id : Uuid) (context : Context) :
    Operation η Execution := do
  let w ← getWorkflow id
  always do
    let started ← beginExecution w.id
    let (finished, vars) ← engine.runToEnd w started context
    let now ← Routine.atomically State.now
    regardless (recordWorkflowRun id now vars)
    archiveExecution engine.historyLimit finished
    return finished

/-- The executions that are running. -/
def activeExecutions : Routine (State η) (List Execution) :=
  Routine.read fun s => s.executions.active.values

/-- The finished executions, the oldest first, perhaps of one workflow only. -/
def executionHistory (workflowId : Option Uuid) : Routine (State η) (List Execution) :=
  Routine.read fun s => s.executions.history.filter fun e =>
    match workflowId with
    | some id => e.workflowId = id
    | none => true

end Automation.Engine
