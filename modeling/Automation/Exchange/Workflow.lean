import Automation.Exchange.Script
import Automation.Template
import Automation.Workflow

/-!
# JSON forms of templates and workflows

The same form serves the tables, the interface and the export of a workflow. Handles and a
description are left out where they are absent. In a patch every field may be left out.
-/
namespace Automation

namespace Parameter

def Kind.names : List (String × Kind) :=
  [("string", .string), ("number", .number), ("boolean", .boolean), ("any", .any)]

def toJson (p : Parameter) : Json :=
  .object [("name", .string p.name), ("type", nameIn Kind.names p.kind)]

def decode : Decoder Parameter := Fields.decoder (mk
  <$> .required "name" Decoder.string
  <*> .required "type" (Decoder.choice Kind.names))

end Parameter

namespace Template

def Category.names : List (String × Category) :=
  [("trigger", .trigger), ("action", .action), ("logic", .logic), ("data", .data)]

def toJson (t : Template) : Json :=
  .object [("id", .string t.id), ("category", nameIn Category.names t.category),
    ("name", .string t.name), ("inputs", .array (t.inputs.map Parameter.toJson)),
    ("outputs", .array (t.outputs.map Parameter.toJson)), ("defaultConfig", t.defaultConfig)]

def decode : Decoder Template := Fields.decoder (mk
  <$> .required "id" Decoder.string
  <*> .required "category" (Decoder.choice Category.names)
  <*> .required "name" Decoder.string
  <*> .required "inputs" (Decoder.list Parameter.decode)
  <*> .required "outputs" (Decoder.list Parameter.decode)
  <*> .required "defaultConfig" Decoder.json)

end Template

namespace Point

def toJson (p : Point) : Json := .object [("x", .ofDouble p.x), ("y", .ofDouble p.y)]

def decode : Decoder Point := Fields.decoder (mk
  <$> .required "x" Decoder.double
  <*> .required "y" Decoder.double)

end Point

namespace Node

def toJson (node : Node) : Json :=
  .object [("id", .string node.id), ("templateId", .string node.templateId),
    ("name", .string node.name), ("position", node.position.toJson), ("config", node.config),
    ("enabled", .bool node.enabled)]

def decode : Decoder Node := Fields.decoder (mk
  <$> .required "id" Decoder.string
  <*> .required "templateId" Decoder.string
  <*> .required "name" Decoder.string
  <*> .withDefault "position" Point.origin Point.decode
  <*> .withDefault "config" .null Decoder.json
  <*> .withDefault "enabled" true Decoder.bool)

def Patch.decode : Decoder Patch := Fields.decoder (Patch.mk
  <$> .optional "name" Decoder.string
  <*> .optional "position" Point.decode
  <*> .optional "config" Decoder.json
  <*> .optional "enabled" Decoder.bool)

end Node

namespace Connection

def toJson (c : Connection) : Json :=
  .record [("id", some (.string c.id)), ("sourceNodeId", some (.string c.source)),
    ("targetNodeId", some (.string c.target)), ("sourceHandle", c.sourceHandle.map .string),
    ("targetHandle", c.targetHandle.map .string)]

def decode : Decoder Connection := Fields.decoder (mk
  <$> .required "id" Decoder.string
  <*> .required "sourceNodeId" Decoder.string
  <*> .required "targetNodeId" Decoder.string
  <*> .optionalLast "sourceHandle" Decoder.string
  <*> .optionalLast "targetHandle" Decoder.string)

end Connection

/-- A dictionary of values as an object, in its own order. -/
def Json.ofDict (d : Dict String Json) : Json := .object d.entries

namespace Workflow

def toJson (w : Workflow) : Json :=
  .record [("id", some (.ofUuid w.id)), ("name", some (.string w.name)),
    ("description", w.description.map .string), ("enabled", some (.bool w.enabled)),
    ("trigger", some w.trigger.toJson), ("nodes", some (.array (w.nodes.map Node.toJson))),
    ("connections", some (.array (w.connections.map Connection.toJson))),
    ("variables", some (.ofDict w.vars)), ("createdAt", some (.ofInstant w.createdAt)),
    ("lastRun", some (.ofOption .ofInstant w.lastRun)), ("runCount", some (.ofCount w.runCount))]

def decode : Decoder Workflow := Fields.decoder (mk
  <$> .required "id" Decoder.uuid
  <*> .required "name" Decoder.string
  <*> .optionalLast "description" Decoder.string
  <*> .required "enabled" Decoder.bool
  <*> .required "trigger" Trigger.decode
  <*> .withDefault "nodes" [] (Decoder.list Node.decode)
  <*> .withDefault "connections" [] (Decoder.list Connection.decode)
  <*> .withDefault "variables" Dict.empty (Decoder.dict Decoder.json)
  <*> .required "createdAt" Decoder.instant
  <*> .optionalLast "lastRun" Decoder.instant
  <*> .withDefault "runCount" 0 Decoder.count)

def Patch.decode : Decoder Patch := Fields.decoder (Patch.mk
  <$> .optional "name" Decoder.string
  <*> .optional "description" Decoder.string
  <*> .optional "enabled" Decoder.bool
  <*> .optional "trigger" Trigger.decode
  <*> .optional "variables" (Decoder.dict Decoder.json))

end Workflow
end Automation
