import Automation.Engine.Job
import Automation.Exchange.Report
import Automation.Http.Message

/-!
# The interface of the engine

Every request becomes a job of the engine. A request is refused before the engine is asked if its
path is unknown, its method does not fit the path, an identifier cannot be read, or its body is not
what is asked for, looked at in this order.
-/
namespace Automation.Http

variable {η : Type}

/-- Answers with what an operation of the engine returns. -/
def respond (operation : Engine.Operation η α) (shown : α → Response) :
    Except Response (Engine.Job η Response) :=
  .ok <| .single do
    match ← operation.run with
    | .ok a => return shown a
    | .error e => return .ofError e

/-- Answers with what a routine returns. -/
def report (routine : Routine (Engine.State η) α) (shown : α → Response) :
    Except Response (Engine.Job η Response) :=
  .ok (.single (shown <$> routine))

/-- An identifier in the path. -/
def identifier (segment : String) : Except Response Uuid :=
  match (Text.percentDecoded? segment).bind Uuid.ofText? with
  | some id => .ok id
  | none => .error .badAddress

/-- A text in the path. -/
def word (segment : String) : Except Response String :=
  match Text.percentDecoded? segment with
  | some text => .ok text
  | none => .error .badAddress

/-- The body as a value of a type. Whatever follows the value is not looked at. -/
def content (decode : Decoder α) (r : Request) : Except Response α :=
  if r.isJson then (decode (Document.front r.body)).mapError .ofFault else .error .unsupported

/-- The value of a context entry as a text. -/
def entryText : Json → String
  | .string s => s
  | .null => ""
  | value => value.compact

def contextOf (d : Dict String Json) : Context :=
  Dict.ofList (d.entries.map fun (key, value) => (key, entryText value))

def decodeContext : Decoder (Dict String Json) := Decoder.dict Decoder.json

/-- The context in the body; a body that cannot be used is an empty one. -/
def optionalContext (r : Request) : Context :=
  match content decodeContext r with
  | .ok d => contextOf d
  | .error _ => Dict.empty

def list (encode : α → Json) (items : List α) : Response := .ok (.array (items.map encode))

/-! ## Bodies -/

structure NewScript where
  name : String
  code : String

def NewScript.decode : Decoder NewScript := Fields.decoder (mk
  <$> .required "name" Decoder.string
  <*> .withDefault "code" "" Decoder.string)

def decodeCode : Decoder String := Fields.decoder (.required "code" Decoder.string)

structure ScriptPatch where
  name : Option String
  enabled : Option Bool

def ScriptPatch.decode : Decoder ScriptPatch := Fields.decoder (mk
  <$> .optional "name" Decoder.string
  <*> .optional "enabled" Decoder.bool)

structure NewWorkflow where
  name : String
  description : Option String
  trigger : Trigger

def NewWorkflow.decode : Decoder NewWorkflow := Fields.decoder (mk
  <$> .required "name" Decoder.string
  <*> .optional "description" Decoder.string
  <*> .withDefault "trigger" .manual Trigger.decode)

structure NewNode where
  templateId : String
  position : Point

def NewNode.decode : Decoder NewNode := Fields.decoder (mk
  <$> .required "templateId" Decoder.string
  <*> .withDefault "position" Point.origin Point.decode)

structure NewConnection where
  source : String
  target : String
  sourceHandle : Option String
  targetHandle : Option String

def NewConnection.decode : Decoder NewConnection := Fields.decoder (mk
  <$> .required "sourceNodeId" Decoder.string
  <*> .required "targetNodeId" Decoder.string
  <*> .optional "sourceHandle" Decoder.string
  <*> .optional "targetHandle" Decoder.string)

structure DueSchedule where
  expression : String
  context : Dict String Json

def DueSchedule.decode : Decoder DueSchedule := Fields.decoder (mk
  <$> .required "expr" Decoder.string
  <*> .withDefault "context" Dict.empty decodeContext)

/-! ## Answers -/

/-- Changes the name and then the state of a script, whichever are given. -/
def patchScript (id : Uuid) (patch : ScriptPatch) : Engine.Operation η Script := do
  let script ← Engine.getScript id
  let script ← match patch.name with
    | some name => Engine.renameScript id name
    | none => pure script
  match patch.enabled with
  | some enabled => Engine.setScriptEnabled id enabled
  | none => pure script

def diagnosticsResponse (diagnostics : List Diagnostic) : Response :=
  .ok (.object [("valid", .bool (!diagnostics.any Diagnostic.isError)),
    ("diagnostics", .array (diagnostics.map Diagnostic.toJson))])

def importResponse : Option Workflow → Response
  | some w => .created w.toJson
  | none => ⟨400, .json (.object [("imported", .bool false)])⟩

/-- The value of a query's key, which must not stand there twice. -/
def parameter (key : String) (r : Request) : Except Response (Option String) :=
  match r.query.filter fun pair => pair.1 == key with
  | [] => .ok none
  | [(_, value)] => .ok (some value)
  | _ => .error .badAddress

/-- The executions of a workflow, or of all of them, with one status or with any. -/
def executions (r : Request) : Except Response (Engine.Job η Response) := do
  let workflowId ← match ← parameter "workflowId" r with
    | none => .ok none
    | some text =>
      match Uuid.ofText? text with
      | some id => .ok (some id)
      | none => .error Response.badAddress
  let status ← match ← parameter "status" r with
    | none => .ok none
    | some text =>
      match Execution.Status.ofText? text with
      | some status => .ok (some status)
      | none => .error (.complaint 400 (Execution.Status.unknownMessage text))
  let wanted (e : Execution) : Bool :=
    (workflowId.all fun id => e.workflowId = id) && status.all fun s => e.status = s
  let shown (es : List Execution) : Json := .array ((es.filter wanted).map Execution.toJson)
  report (do
      let active ← Engine.activeExecutions
      let history ← Engine.executionHistory workflowId
      return (active, history))
    fun (active, history) => .ok (.object [("active", shown active), ("history", shown history)])

/-- The answer to a request for a resource. -/
def answer (engine : Engine η) (r : Request) :
    Resource → Method → Except Response (Engine.Job η Response)
  | .scripts, .get => report Engine.listScripts (list Script.toJson)
  | .scripts, .post => do
    let new ← content NewScript.decode r
    respond (Engine.createScript new.name new.code) fun s => .created s.toJson
  | .script id, .get => do respond (Engine.getScript (← identifier id)) fun s => .ok s.toJson
  | .script id, .patch => do
    let id ← identifier id
    respond (patchScript id (← content ScriptPatch.decode r)) fun s => .ok s.toJson
  | .script id, .delete => do
    respond (Engine.deleteScript (← identifier id)) fun () => .noContent
  | .scriptCode id, .put => do
    let id ← identifier id
    respond (Engine.updateCode id (← content decodeCode r)) fun s => .ok s.toJson
  | .scriptRun id, .post => do
    respond (engine.runScript (← identifier id) (optionalContext r)) (list Engine.ScriptRun.toJson)
  | .scriptConversion id, .post => do
    respond (engine.convertScript (← identifier id)) fun w => .created w.toJson
  | .validation, .post => do
    let code ← content decodeCode r
    report (pure (engine.validate code)) diagnosticsResponse
  | .workflows, .get => report Engine.listWorkflows (list Workflow.toJson)
  | .workflows, .post => do
    let new ← content NewWorkflow.decode r
    respond (Engine.createWorkflow new.name new.description new.trigger) fun w => .created w.toJson
  | .workflowImport, .post => report (Engine.importWorkflow r.body) importResponse
  | .workflow id, .get => do respond (Engine.getWorkflow (← identifier id)) fun w => .ok w.toJson
  | .workflow id, .patch => do
    let id ← identifier id
    respond (Engine.updateWorkflow id (← content Workflow.Patch.decode r)) fun w => .ok w.toJson
  | .workflow id, .delete => do
    respond (Engine.deleteWorkflow (← identifier id)) fun () => .noContent
  | .workflowCopy id, .post => do
    respond (Engine.duplicateWorkflow (← identifier id)) fun w => .created w.toJson
  | .workflowRun id, .post => do
    respond (engine.executeWorkflow (← identifier id) (optionalContext r)) fun e => .ok e.toJson
  | .workflowExport id, .get => do
    respond (Engine.exportWorkflow (← identifier id)) fun text => ⟨200, .document text⟩
  | .nodes id, .post => do
    let id ← identifier id
    let new ← content NewNode.decode r
    respond (engine.addNode id new.templateId new.position) fun node =>
      .ok (.ofOption Node.toJson node)
  | .node id nodeId, .patch => do
    let id ← identifier id
    let nodeId ← word nodeId
    respond (Engine.updateNode id nodeId (← content Node.Patch.decode r)) fun n => .ok n.toJson
  | .node id nodeId, .delete => do
    let id ← identifier id
    respond (Engine.removeNode id (← word nodeId)) fun _ => .noContent
  | .connections id, .post => do
    let id ← identifier id
    let new ← content NewConnection.decode r
    respond (Engine.connect id new.source new.target new.sourceHandle new.targetHandle) fun c =>
      .created c.toJson
  | .connection id connectionId, .delete => do
    let id ← identifier id
    let connectionId ← word connectionId
    respond (Engine.disconnect id connectionId) fun existed =>
      if existed then .noContent
      else .complaint 404 ("connection '" ++ connectionId ++ "' not found")
  | .assignment id name, .put => do
    let id ← identifier id
    let name ← word name
    respond (Engine.setVariable id name (← content Decoder.json r)) fun () => .noContent
  | .templates, .get => report (pure engine.catalog.list) (list Template.toJson)
  | .executions, .get => executions r
  | .event name, .post => do
    let name ← word name
    .ok (.sideBySide (engine.event name (optionalContext r)) fun result => .ok result.toJson)
  | .schedules, .get => report Engine.schedules (list Engine.ScheduleEntry.toJson)
  | .dueSchedule, .post => do
    let due ← content DueSchedule.decode r
    .ok (.sideBySide (engine.fireSchedule due.expression (contextOf due.context)) fun result =>
      .ok result.toJson)
  | _, _ => .error .methodNotAllowed

/-- A request as a job. A question for the options of any path is answered at once, and a question
for the head of a response is answered like one for the whole, but without the body. -/
def handle (engine : Engine η) (r : Request) : Engine.Job η Response :=
  let refused (response : Response) : Engine.Job η Response := .single (pure response)
  let answered (resource : Resource) (method : Method) : Engine.Job η Response :=
    match answer engine r resource method with
    | .ok job => job
    | .error response => refused response
  match r.method, Resource.ofPath? r.path with
  | .options, _ => refused ⟨200, .empty⟩
  | .head, none => refused .notFound
  | .head, some resource => (answered resource .get).map Response.withoutBody
  | _, none => refused .notFound
  | method, some resource => answered resource method

end Automation.Http
