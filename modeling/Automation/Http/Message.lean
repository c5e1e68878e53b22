import Automation.Engine.Error
import Automation.Exchange.Program
import Automation.Text.Percent

/-!
# Requests and responses

A response has a status and perhaps a body. The bodies that carry data are JSON; a refusal before
the engine is asked carries a wording for people only.
-/
namespace Automation.Http

inductive Method where
  | get
  | head
  | post
  | put
  | patch
  | delete
  | options
  | other
  deriving DecidableEq

def Method.ofText (text : String) : Method :=
  (([("GET", get), ("HEAD", head), ("POST", post), ("PUT", put), ("PATCH", patch),
    ("DELETE", delete), ("OPTIONS", options)].find? fun m => m.1 == text).map Prod.snd).getD other

structure Request where
  method : Method
  /-- The path with the query. -/
  target : String
  body : String
  /-- Whether the body is declared to be JSON. -/
  isJson : Bool

namespace Request

/-- The target without a fragment, which servers are not told. -/
def address (r : Request) : List Char := r.target.toList.takeWhile (· != '#')

def path (r : Request) : String := String.ofList (r.address.takeWhile (· != '?'))

def query (r : Request) : List (String × String) :=
  Text.queryPairs (String.ofList ((r.address.dropWhile (· != '?')).drop 1))

end Request

inductive Body where
  | empty
  | json (value : Json)
  /-- JSON that has been printed already. -/
  | document (text : String)
  | wording

structure Response where
  status : Nat
  body : Body

namespace Response

def ok (value : Json) : Response := ⟨200, .json value⟩
def created (value : Json) : Response := ⟨201, .json value⟩
def noContent : Response := ⟨204, .empty⟩
def notFound : Response := ⟨404, .empty⟩
def methodNotAllowed : Response := ⟨405, .empty⟩

/-- A path or a query that makes no sense. -/
def badAddress : Response := ⟨400, .wording⟩

/-- A body that is not declared to be JSON where JSON is asked for. -/
def unsupported : Response := ⟨415, .wording⟩

def ofFault : Fault → Response
  | .malformed => ⟨400, .wording⟩
  | .mismatch => ⟨422, .wording⟩

def complaint (status : Nat) (message : String) : Response :=
  ⟨status, .json (.object [("error", .string message)])⟩

/-- Errors of storage are not told to the outside. -/
def ofError (e : EngineError) : Response :=
  match e with
  | .scriptNotFound _ => complaint 404 e.message
  | .workflowNotFound _ => complaint 404 e.message
  | .nodeNotFound _ _ => complaint 404 e.message
  | .graph _ => complaint 400 e.message
  | .uncompiled cause =>
    ⟨422, .json (.object [("error", .string "script does not compile"),
      ("diagnostics", .array [(Diagnostic.ofSyntaxError cause).toJson])])⟩
  | .database _ => complaint 500 "internal error"

def withoutBody (r : Response) : Response := { r with body := .empty }

end Response

/-- What stands under the path of the interface. -/
inductive Resource where
  | scripts
  | script (id : String)
  | scriptCode (id : String)
  | scriptRun (id : String)
  | scriptConversion (id : String)
  | validation
  | workflows
  | workflowImport
  | workflow (id : String)
  | workflowCopy (id : String)
  | workflowRun (id : String)
  | workflowExport (id : String)
  | nodes (id : String)
  | node (id nodeId : String)
  | connections (id : String)
  | connection (id connectionId : String)
  | assignment (id name : String)
  | templates
  | executions
  | event (name : String)
  | schedules
  | dueSchedule
  deriving DecidableEq

namespace Resource

/-- Fixed segments come before variable ones. -/
def ofSegments? : List String → Option Resource
  | ["scripts"] => some scripts
  | ["scripts", id] => some (script id)
  | ["scripts", id, "code"] => some (scriptCode id)
  | ["scripts", id, "run"] => some (scriptRun id)
  | ["scripts", id, "convert"] => some (scriptConversion id)
  | ["validate"] => some validation
  | ["workflows"] => some workflows
  | ["workflows", "import"] => some workflowImport
  | ["workflows", id] => some (workflow id)
  | ["workflows", id, "duplicate"] => some (workflowCopy id)
  | ["workflows", id, "execute"] => some (workflowRun id)
  | ["workflows", id, "export"] => some (workflowExport id)
  | ["workflows", id, "nodes"] => some (nodes id)
  | ["workflows", id, "nodes", nodeId] => some (node id nodeId)
  | ["workflows", id, "connections"] => some (connections id)
  | ["workflows", id, "connections", connectionId] => some (connection id connectionId)
  | ["workflows", id, "variables", name] => some (assignment id name)
  | ["templates"] => some templates
  | ["executions"] => some executions
  | ["events", name] => some (event name)
  | ["schedules"] => some schedules
  | ["schedules", "fire"] => some dueSchedule
  | _ => none

/-- The resource under a path; no segment may be empty. -/
def ofPath? (path : String) : Option Resource :=
  match Text.splitAt '/' path with
  | "" :: "api" :: "v1" :: segments =>
    if segments.any String.isEmpty then none else ofSegments? segments
  | _ => none

end Resource
end Automation.Http
