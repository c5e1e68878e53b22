import Automation.Engine.Error
import Automation.Script
import Automation.Supply
import Automation.Template
import Automation.Workflow

/-!
# From scripts to workflows

A script's first rule becomes a workflow with the rule's trigger. Every action whose command has a
template in the catalog becomes a node of that template, its arguments put over the defaults of the
inputs in their order; other actions are left out. The nodes stand side by side from left to right,
each connected to the next. The workflow starts out disabled, since the script still reacts to the
same trigger.
-/
namespace Automation.Workflow

/-- The templates that stand for commands. -/
def commandTemplates : List (String × String) :=
  [("switchScene", "switch-scene"), ("playSound", "play-sound"), ("showAlert", "show-alert"),
    ("speak", "speak"), ("wait", "delay"), ("randomNumber", "random-number"),
    ("setVariable", "set-variable"), ("log", "log")]

def templateFor? (command : String) : Option String :=
  (commandTemplates.find? fun entry => entry.1 == command).map Prod.snd

/-- The place of a node in the row. -/
def slotPosition (slot : Nat) : Point :=
  ⟨Double.ofInt (100 + 250 * slot), Double.ofInt 100⟩

/-- A node as its template has it. -/
def nodeOfTemplate (id : Uuid) (template : Template) (position : Point) : Node :=
  ⟨id.text, template.id, template.name, position, template.defaultConfig, true⟩

/-- Arguments by position over the defaults of the inputs. -/
def configure (template : Template) (arguments : List Argument) : Json :=
  let defaults :=
    match template.defaultConfig with
    | .object members => members
    | _ => []
  .object <| (template.inputs.zip arguments).foldl
    (fun members (input, argument) => Json.insertMember input.name argument.toJson members)
    defaults

def nodeOfAction (id : Uuid) (slot : Nat) (template : Template) (action : Action) : Node :=
  { nodeOfTemplate id template (slotPosition slot) with
    config := configure template action.arguments }

/-- The node of an action at a slot, if the catalog has a template for its command. -/
def nodeFor? (catalog : Catalog) (action : Action) (slot : Nat) (ids : Supply Uuid) :
    Option (Node × Supply Uuid) := do
  let template ← catalog.get? (← templateFor? action.command)
  let (id, ids) := ids.take
  some (nodeOfAction id slot template action, ids)

/-- Connects the previous node, if there is one, to a node. -/
def follow (w : Workflow) (previous : Option String) (id : String) (ids : Supply Uuid) :
    Except GraphError (Workflow × Supply Uuid) :=
  match previous with
  | none => .ok (w, ids)
  | some source => do
    let (connectionId, ids) := ids.take
    return (← w.connect ⟨connectionId.text, source, id, none, none⟩, ids)

/-- Adds the nodes of actions, each connected from the one before it. -/
def addActions (catalog : Catalog) (previous : Option String) (w : Workflow) (ids : Supply Uuid) :
    List Action → Except GraphError (Workflow × Supply Uuid)
  | [] => .ok (w, ids)
  | action :: rest =>
    match nodeFor? catalog action w.nodes.length ids with
    | none => addActions catalog previous w ids rest
    | some (node, ids) => do
      let (w, ids) ← (w.addNode node).follow previous node.id ids
      addActions catalog (some node.id) w ids rest

/-- The workflow that the nodes are added to. -/
def generated (name : String) (trigger : Trigger) (id : Uuid) (now : Instant) : Workflow :=
  { create id now name trigger with
    description := some ("Generated from script '" ++ name ++ "'")
    enabled := false }

/-- The workflow of a script whose rules are given. It is identified by the first of the supply's
identifiers; the nodes and connections take the next ones as they are made. -/
def ofRules (name : String) (rules : List Rule) (catalog : Catalog) (now : Instant)
    (ids : Supply Uuid) : Except GraphError (Workflow × Supply Uuid) :=
  let (id, ids) := ids.take
  match rules with
  | [] => .ok (generated name .manual id now, ids)
  | rule :: _ => addActions catalog none (generated name rule.trigger id now) ids rule.actions

/-- The workflow that a script becomes. -/
def ofScript (script : Script) (catalog : Catalog) (now : Instant) (ids : Supply Uuid) :
    Except EngineError (Workflow × Supply Uuid) :=
  match script.program with
  | .ok program => (ofRules script.name program.rules catalog now ids).mapError .graph
  | .error e => .error (.uncompiled e)

end Automation.Workflow
