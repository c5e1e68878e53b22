import Automation.Counter
import Automation.Dict
import Automation.Json.Basic
import Automation.Time.Instant
import Automation.Trigger
import Automation.Uuid

/-!
# Workflows

A workflow is a list of nodes with directed connections between them, a trigger, and variables that
its runs read and leave behind. Nodes are known by their identifiers within the workflow. What is
wrong with a graph is told by a `GraphError`; a connection is only added between nodes that exist.
-/
namespace Automation

/-- A place on the editor's canvas. -/
structure Point where
  x : Double
  y : Double
  deriving DecidableEq, Inhabited

def Point.origin : Point := ⟨Double.zero, Double.zero⟩

structure Node where
  id : String
  templateId : String
  name : String
  position : Point
  config : Json
  enabled : Bool
  deriving Inhabited

structure Connection where
  id : String
  source : String
  target : String
  sourceHandle : Option String
  targetHandle : Option String
  deriving DecidableEq, Inhabited

/-- The ends of a connection. -/
inductive Connection.Side where
  | source
  | target
  deriving DecidableEq

def Connection.Side.name : Connection.Side → String
  | source => "source"
  | target => "target"

inductive GraphError where
  | duplicateNode (id : String)
  | unknownNode (id : String) (side : Connection.Side)
  | cycle
  deriving DecidableEq

def GraphError.message : GraphError → String
  | duplicateNode id => "duplicate node ID: '" ++ id ++ "'"
  | unknownNode id side =>
    "connection references unknown node '" ++ id ++ "' (" ++ side.name ++ " side)"
  | cycle => "workflow graph contains a cycle"

abbrev Variables := Dict String Json

structure Workflow where
  id : Uuid
  name : String
  description : Option String
  enabled : Bool
  trigger : Trigger
  nodes : List Node
  connections : List Connection
  vars : Variables
  createdAt : Instant
  lastRun : Option Instant
  runCount : UInt64
  deriving Inhabited

namespace Workflow

/-- A new workflow without nodes, enabled and never run. -/
def create (id : Uuid) (now : Instant) (name : String) (trigger : Trigger) : Workflow :=
  ⟨id, name, none, true, trigger, [], [], Dict.empty, now, none, 0⟩

def nodeIds (w : Workflow) : List String := w.nodes.map Node.id

/-- The first node with an identifier. -/
def node? (w : Workflow) (id : String) : Option Node :=
  w.nodes.find? fun node => node.id == id

def addNode (w : Workflow) (node : Node) : Workflow :=
  { w with nodes := w.nodes ++ [node] }

/-- The first node with an identifier changed. -/
def changeFirst (id : String) (change : Node → Node) : List Node → List Node
  | [] => []
  | node :: rest => if node.id = id then change node :: rest else node :: changeFirst id change rest

/-- Changes a node, if there is one with the identifier, and returns it. -/
def updateNode? (w : Workflow) (id : String) (change : Node → Node) : Option (Node × Workflow) :=
  (w.node? id).map fun node => (change node, { w with nodes := changeFirst id change w.nodes })

/-- Removes a node, if there is one with the identifier, and all connections that touch it. -/
def removeNode? (w : Workflow) (id : String) : Option (Node × Workflow) :=
  (w.node? id).map fun node =>
    (node, { w with
      nodes := w.nodes.eraseP fun node => node.id == id
      connections := w.connections.filter fun c => c.source ≠ id ∧ c.target ≠ id })

/-- The first end of a connection that is no node, the source looked at first. -/
def missingEnd? (w : Workflow) (source target : String) : Option GraphError :=
  if (w.node? source).isNone then some (.unknownNode source .source)
  else if (w.node? target).isNone then some (.unknownNode target .target)
  else none

def connect (w : Workflow) (connection : Connection) : Except GraphError Workflow :=
  match w.missingEnd? connection.source connection.target with
  | some e => .error e
  | none => .ok { w with connections := w.connections ++ [connection] }

/-- Removes the connections with an identifier. -/
def disconnect (w : Workflow) (id : String) : Workflow :=
  { w with connections := w.connections.filter fun c => c.id ≠ id }

def hasConnection (w : Workflow) (id : String) : Bool :=
  w.connections.any fun c => c.id == id

def setVariable (w : Workflow) (name : String) (value : Json) : Workflow :=
  { w with vars := w.vars.insert name value }

/-- Counts a run and takes over its variables; a full counter crashes. -/
def recordRun (w : Workflow) (now : Instant) (vars : Variables) : Except String Workflow := do
  return { w with runCount := ← Counter.next w.runCount, lastRun := some now, vars }

/-- A copy under another identifier that has never been run. -/
def copy (w : Workflow) (id : Uuid) (now : Instant) : Workflow :=
  { w with id, name := w.name ++ " (copy)", createdAt := now, lastRun := none, runCount := 0 }

/-- A change of some of a workflow's own fields. -/
structure Patch where
  name : Option String
  description : Option String
  enabled : Option Bool
  trigger : Option Trigger
  vars : Option Variables
  deriving Inhabited

/-- Fields that the patch leaves out stay as they are; an empty description removes it. -/
def patched (w : Workflow) (patch : Patch) : Workflow :=
  { w with
    name := patch.name.getD w.name
    description :=
      match patch.description with
      | some description => if description.isEmpty then none else some description
      | none => w.description
    enabled := patch.enabled.getD w.enabled
    trigger := patch.trigger.getD w.trigger
    vars := patch.vars.getD w.vars }

end Workflow

namespace Node

/-- A change of some of a node's fields. -/
structure Patch where
  name : Option String
  position : Option Point
  config : Option Json
  enabled : Option Bool
  deriving Inhabited

def patched (node : Node) (patch : Patch) : Node :=
  { node with
    name := patch.name.getD node.name
    position := patch.position.getD node.position
    config := patch.config.getD node.config
    enabled := patch.enabled.getD node.enabled }

end Node
end Automation
