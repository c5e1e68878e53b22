import Automation.Dict
import Automation.Json.Basic

/-!
# Node templates

What nodes are made from. The catalog finds a template by its identifier, under which the node's
behaviour is found as well, and lists its templates by identifier.
-/
namespace Automation

namespace Template

inductive Category where
  | trigger
  | action
  | logic
  | data
  deriving DecidableEq, Inhabited

end Template

namespace Parameter

inductive Kind where
  | string
  | number
  | boolean
  | any
  deriving DecidableEq, Inhabited

end Parameter

/-- A named and typed input or output of a node. -/
structure Parameter where
  name : String
  kind : Parameter.Kind
  deriving DecidableEq, Inhabited

structure Template where
  id : String
  category : Template.Category
  name : String
  inputs : List Parameter
  outputs : List Parameter
  defaultConfig : Json
  deriving Inhabited

structure Catalog where
  templates : Dict String Template
  deriving Inhabited

namespace Catalog

def empty : Catalog := ⟨Dict.empty⟩

/-- Adds a template or replaces the one with its identifier. -/
def register (catalog : Catalog) (template : Template) : Catalog :=
  ⟨catalog.templates.insert template.id template⟩

def ofList (templates : List Template) : Catalog :=
  templates.foldl register empty

def get? (catalog : Catalog) (id : String) : Option Template := catalog.templates.get? id

def contains (catalog : Catalog) (id : String) : Bool := catalog.templates.contains id

/-- The templates in the order of their identifiers. -/
def list (catalog : Catalog) : List Template :=
  catalog.templates.values.mergeSort fun a b => !(b.id < a.id)

def inCategory (catalog : Catalog) (category : Template.Category) : List Template :=
  catalog.list.filter fun template => template.category = category

private def text (name : String) : Parameter := ⟨name, .string⟩
private def number (name : String) : Parameter := ⟨name, .number⟩
private def value (name : String) : Parameter := ⟨name, .any⟩

/-- The templates that are always there. -/
def builtin : Catalog := ofList
  [⟨"event-trigger", .trigger, "Event Trigger", [text "eventName"], [value "payload"],
      .object [("eventName", .string "")]⟩,
    ⟨"schedule-trigger", .trigger, "Schedule Trigger", [text "scheduleExpr"], [],
      .object [("scheduleExpr", .string "")]⟩,
    ⟨"manual-trigger", .trigger, "Manual Trigger", [], [], .object []⟩,
    ⟨"switch-scene", .action, "Switch Scene", [text "sceneName"], [],
      .object [("sceneName", .string "")]⟩,
    ⟨"play-sound", .action, "Play Sound", [text "sound", number "volume"], [],
      .object [("sound", .string ""), ("volume", .int 100)]⟩,
    ⟨"show-alert", .action, "Show Alert", [text "title", text "message", number "duration"], [],
      .object [("duration", .int 5), ("message", .string ""), ("title", .string "Alert")]⟩,
    ⟨"speak", .action, "Text to Speech", [text "text"], [], .object [("text", .string "")]⟩,
    ⟨"delay", .logic, "Delay", [number "seconds"], [], .object [("seconds", .int 1)]⟩,
    ⟨"random-number", .data, "Random Number", [number "min", number "max", text "variable"],
      [number "value"], .object [("max", .int 100), ("min", .int 1)]⟩,
    ⟨"set-variable", .data, "Set Variable", [text "name", value "value"], [value "value"],
      .object [("name", .string ""), ("value", .null)]⟩,
    ⟨"log", .data, "Log Message", [text "message", text "level"], [],
      .object [("level", .string "info"), ("message", .string "")]⟩]

end Catalog
end Automation
