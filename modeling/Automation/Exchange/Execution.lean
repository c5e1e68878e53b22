import Automation.Exchange.Workflow
import Automation.Execution

/-!
# JSON forms of executions
-/
namespace Automation.Execution

def Status.names : List (String × Status) := Status.all.map fun status => (status.text, status)

def Level.names : List (String × Level) :=
  [("info", .info), ("warning", .warning), ("error", .error)]

def LogEntry.toJson (entry : LogEntry) : Json :=
  .record [("timestamp", some (.ofInstant entry.timestamp)),
    ("level", some (nameIn Level.names entry.level)), ("nodeId", entry.nodeId.map .string),
    ("message", some (.string entry.message))]

def LogEntry.decode : Decoder LogEntry := Fields.decoder (mk
  <$> .required "timestamp" Decoder.instant
  <*> .required "level" (Decoder.choice Level.names)
  <*> .optionalLast "nodeId" Decoder.string
  <*> .required "message" Decoder.string)

def toJson (e : Execution) : Json :=
  .record [("id", some (.ofUuid e.id)), ("workflowId", some (.ofUuid e.workflowId)),
    ("startTime", some (.ofInstant e.startTime)),
    ("endTime", some (.ofOption .ofInstant e.endTime)),
    ("status", some (nameIn Status.names e.status)), ("results", some (.ofDict e.results)),
    ("logs", some (.array (e.logs.map LogEntry.toJson))), ("error", e.error.map .string)]

def decode : Decoder Execution := Fields.decoder (mk
  <$> .required "id" Decoder.uuid
  <*> .required "workflowId" Decoder.uuid
  <*> .required "startTime" Decoder.instant
  <*> .optionalLast "endTime" Decoder.instant
  <*> .required "status" (Decoder.choice Status.names)
  <*> .withDefault "results" Dict.empty (Decoder.dict Decoder.json)
  <*> .withDefault "logs" [] (Decoder.list LogEntry.decode)
  <*> .optionalLast "error" Decoder.string)

end Automation.Execution
