import Automation.Workflow

/-!
# The graph of a workflow

A graph is sound if its node identifiers are distinct and every connection joins two of its nodes.
A sound graph without cycles has an order in which every connection leads forward. The order is
found by taking nodes from a queue: a node enters the queue when the last open connection into it
has been released, the nodes without incoming connections first, as they are stored.
-/
namespace Automation.Workflow

/-- The first identifier that has been seen before. -/
def repeated? (seen : List String) : List String → Option String
  | [] => none
  | id :: rest => if seen.contains id then some id else repeated? (id :: seen) rest

/-- The first connection with a missing end, the source looked at first. -/
def danglingEnd? (ids : List String) : List Connection → Option GraphError
  | [] => none
  | c :: rest =>
    if !ids.contains c.source then some (.unknownNode c.source .source)
    else if !ids.contains c.target then some (.unknownNode c.target .target)
    else danglingEnd? ids rest

/-- What is wrong with the graph, cycles aside. -/
def checkGraph (w : Workflow) : Except GraphError Unit :=
  match repeated? [] w.nodeIds with
  | some id => .error (.duplicateNode id)
  | none =>
    match danglingEnd? w.nodeIds w.connections with
    | some e => .error e
    | none => .ok ()

/-- A graph while it is being sorted: how many connections into each node are open, the nodes whose
turn has come, and the nodes that have had it. -/
structure Sorting where
  inDegree : Dict String Nat
  queue : List String
  emitted : List String

namespace Sorting

def degree (s : Sorting) (id : String) : Nat := (s.inDegree.get? id).getD 0

/-- Opens a connection. -/
def count (s : Sorting) (c : Connection) : Sorting :=
  { s with inDegree := s.inDegree.insert c.target (s.degree c.target + 1) }

/-- Every connection is open and the nodes without incoming connections are queued. -/
def start (w : Workflow) : Sorting :=
  let counted := w.connections.foldl count ⟨Dict.empty, [], []⟩
  { counted with queue := w.nodeIds.filter fun id => counted.degree id = 0 }

/-- Closes a connection into a node; the node is queued when it was the last. -/
def release (s : Sorting) (target : String) : Sorting :=
  let degree := s.degree target - 1
  { s with
    inDegree := s.inDegree.insert target degree
    queue := if degree = 0 then s.queue ++ [target] else s.queue }

/-- The targets of the connections from a node, as they are stored. -/
def targets (w : Workflow) (id : String) : List String :=
  (w.connections.filter fun c => c.source = id).map Connection.target

/-- The node at the front of the queue has its turn. -/
def step (w : Workflow) (s : Sorting) : Sorting :=
  match s.queue with
  | [] => s
  | id :: rest =>
    (targets w id).foldl release { s with queue := rest, emitted := s.emitted ++ [id] }

/-- The given number of turns; none change anything once the queue is empty. -/
def run (w : Workflow) : (turns : Nat) → Sorting → Sorting
  | 0, s => s
  | turns + 1, s => run w turns (step w s)

end Sorting

/-- The node identifiers in an order in which every connection leads forward. No node has more than
one turn. -/
def topologicalOrder (w : Workflow) : Except GraphError (List String) := do
  w.checkGraph
  let sorted := (Sorting.run w w.nodes.length (Sorting.start w)).emitted
  if sorted.length = w.nodes.length then .ok sorted else .error .cycle

end Automation.Workflow
