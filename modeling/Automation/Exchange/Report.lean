import Automation.Engine.Events
import Automation.Exchange.Execution

/-!
# JSON forms of reports
-/
namespace Automation

namespace Rule

def Failure.toJson (failure : Failure) : Json :=
  .object [("index", .ofNat failure.index), ("command", .string failure.command),
    ("message", .string failure.message)]

/-- The members that tell how a run went. -/
def Outcome.members (outcome : Outcome) : List (String × Option Json) :=
  [("completedActions", some (.ofNat outcome.completed)),
    ("unknownCommands", some (.array (outcome.unknown.map .string))),
    ("error", outcome.failure.map Failure.toJson)]

def Outcome.toJson (outcome : Outcome) : Json := .record outcome.members

end Rule

namespace Engine

def ScriptRun.toJson (run : ScriptRun) : Json :=
  .record <| [("scriptId", some (.ofUuid run.scriptId)), ("ruleIndex", some (.ofNat run.ruleIndex))]
    ++ run.outcome.members

def Report.toJson (report : Report) : Json :=
  .object [("scriptRuns", .array (report.scriptRuns.map ScriptRun.toJson)),
    ("executions", .array (report.executions.map Execution.toJson))]

def ScheduleOwner.toJson : ScheduleOwner → Json
  | script id ruleIndex =>
    .object [("kind", .string "script"), ("scriptId", .ofUuid id), ("ruleIndex", .ofNat ruleIndex)]
  | workflow id => .object [("kind", .string "workflow"), ("workflowId", .ofUuid id)]

def ScheduleEntry.toJson (entry : ScheduleEntry) : Json :=
  .object [("owner", entry.owner.toJson), ("scheduleExpr", .string entry.expression)]

end Engine
end Automation
