import Automation.Engine.Scripts
import Automation.Engine.Workflows

/-!
# Events and schedules

An event, or a schedule that is due, starts every rule of an enabled script and every enabled
workflow whose trigger fits. The runs start side by side and none of them minds the others; what
each of them came to is reported when all have ended. Should one of them crash all the same, there
is no report.
-/
namespace Automation.Engine

variable {η : Type}

/-- What a run that an event has started came to; a workflow may be gone before it starts. -/
inductive Result where
  | script (run : ScriptRun)
  | workflow (execution : Execution)
  | nothing

/-- What an event has started. -/
structure Report where
  scriptRuns : List ScriptRun
  executions : List Execution

def Report.ofResults (results : List Result) : Report where
  scriptRuns := results.filterMap fun
    | .script run => some run
    | _ => none
  executions := results.filterMap fun
    | .workflow e => some e
    | _ => none

/-- The rules of an enabled script whose trigger fits, with their indexes; none if the script does
not compile. -/
def fittingRules (fits : Trigger → Bool) (script : Script) : List (Rule × Nat) :=
  match script.enabled, script.program with
  | true, .ok program => program.rules.zipIdx.filter fun (rule, _) => fits rule.trigger
  | _, _ => []

/-- The run of a rule that something outside has set off, in a task of its own. If the task crashes,
the run is counted in its place and reported as aborted. -/
def superviseRule (engine : Engine η) (id : Uuid) (index : Nat) (rule : Rule) (context : Context) :
    Routine (State η) Result := do
  match ← (engine.runRule id index rule context).guarded with
  | .ok run => return .script run
  | .error message =>
    let task ← Routine.atomically State.takeTask
    regardless (recordScriptRunNow id)
    return .script ⟨id, index, .aborted (engine.crashReport task message)⟩

/-- The run of a workflow that something outside has set off, in a task of its own. Nothing is
reported of a task that crashes. -/
def runWorkflow (engine : Engine η) (id : Uuid) (context : Context) :
    Routine (State η) Result := do
  match ← (engine.executeWorkflow id context).run.guarded with
  | .ok (.ok e) => return .workflow e
  | .ok (.error _) | .error _ => return .nothing

/-- The runs that start when something happens that fits some triggers: those of the scripts, the
oldest first, and then those of the workflows. -/
def occasion (engine : Engine η) (context : Context) (fits : Trigger → Bool) :
    Routine (State η) (List (Routine (State η) Result)) := do
  let scripts ← listScripts
  let workflows ← listWorkflows
  let rules := scripts.flatMap fun script =>
    (fittingRules fits script).map fun (rule, index) =>
      engine.superviseRule script.id index rule context
  let whole := (workflows.filter fun w => w.enabled && fits w.trigger).map fun w =>
    engine.runWorkflow w.id context
  return rules ++ whole

/-- The runs that an event starts. -/
def event (engine : Engine η) (name : String) (context : Context) :
    Routine (State η) (List (Routine (State η) Result)) :=
  engine.occasion context fun trigger => trigger.matchesEvent name context

/-- The runs that start when a schedule is due. Blanks around the expression do not matter. -/
def fireSchedule (engine : Engine η) (expression : String) (context : Context) :
    Routine (State η) (List (Routine (State η) Result)) :=
  engine.occasion context fun trigger => trigger.matchesSchedule (Text.trim expression)

/-- Who waits for a schedule. -/
inductive ScheduleOwner where
  | script (id : Uuid) (ruleIndex : Nat)
  | workflow (id : Uuid)
  deriving DecidableEq

structure ScheduleEntry where
  owner : ScheduleOwner
  expression : String
  deriving DecidableEq

def scriptSchedules (script : Script) : List ScheduleEntry :=
  match script.enabled, script.program with
  | true, .ok program => program.rules.zipIdx.filterMap fun (rule, index) =>
    rule.trigger.scheduleExpression?.map fun expression => ⟨.script script.id index, expression⟩
  | _, _ => []

def workflowSchedule? (w : Workflow) : Option ScheduleEntry :=
  if w.enabled then
    w.trigger.scheduleExpression?.map fun expression => ⟨.workflow w.id, expression⟩
  else none

/-- Every schedule that something waits for, for a timer outside to announce. -/
def schedules : Routine (State η) (List ScheduleEntry) := do
  let scripts ← listScripts
  let workflows ← listWorkflows
  return scripts.flatMap scriptSchedules ++ workflows.filterMap workflowSchedule?

end Automation.Engine
