import Automation.Diagnostic
import Automation.Json.Decoder

/-!
# JSON forms of scripts and programs

Tokens, diagnostics, triggers and programs as JSON. Enumerations are written by name. A trigger
carries its kind among its own members, wherever that member stands.
-/
namespace Automation

/-- The name that an enumeration gives a value. -/
def nameIn [DecidableEq α] (names : List (String × α)) (a : α) : Json :=
  .string (((names.find? fun n => n.2 = a).map Prod.fst).getD "")

namespace Token

def Kind.names : List (String × Kind) :=
  [("keyword", .keyword), ("identifier", .identifier), ("operator", .operator),
    ("string", .string), ("number", .number), ("symbol", .symbol)]

def toJson (token : Token) : Json :=
  .object [("kind", nameIn Kind.names token.kind), ("value", .string token.value),
    ("line", .ofNat token.line), ("column", .ofNat token.column)]

def decode : Decoder Token := Fields.decoder (mk
  <$> .required "kind" (Decoder.choice Kind.names)
  <*> .required "value" Decoder.string
  <*> .required "line" Decoder.natural
  <*> .required "column" Decoder.natural)

end Token

namespace Diagnostic

def severityNames : List (String × Severity) :=
  [("error", .error), ("warning", .warning)]

def toJson (d : Diagnostic) : Json :=
  .object [("line", .ofNat d.line), ("column", .ofNat d.column), ("message", .string d.message),
    ("severity", nameIn severityNames d.severity)]

def decode : Decoder Diagnostic := Fields.decoder (mk
  <$> .required "line" Decoder.natural
  <*> .required "column" Decoder.natural
  <*> .required "message" Decoder.string
  <*> .required "severity" (Decoder.choice severityNames))

end Diagnostic

namespace Condition

def comparisonNames : List (String × Comparison) :=
  Comparison.all.map fun c => (c.text, c)

def toJson (c : Condition) : Json :=
  .object [("left", .string c.left), ("operator", .string c.operator.text),
    ("right", .string c.right)]

def decode : Decoder Condition := Fields.decoder (mk
  <$> .required "left" Decoder.string
  <*> .required "operator" (Decoder.choice comparisonNames)
  <*> .required "right" Decoder.string)

end Condition

namespace Trigger

inductive Kind where
  | event
  | schedule
  | manual
  deriving DecidableEq

def kindNames : List (String × Kind) :=
  [("event", .event), ("schedule", .schedule), ("manual", .manual)]

def toJson : Trigger → Json
  | event name condition =>
    .record [("kind", some (.string "event")), ("eventName", some (.string name)),
      ("condition", condition.map Condition.toJson)]
  | schedule expression =>
    .object [("kind", .string "schedule"), ("scheduleExpr", .string expression)]
  | manual => .object [("kind", .string "manual")]

def kindOf (document : Document) : Except Fault Kind := do
  let name ← Decoder.string document
  Decoder.expect ((kindNames.find? fun k => k.1 == name).map Prod.snd)

def usable (document : Document) : Except Fault Unit :=
  (Decoder.json document).map fun _ => ()

/-- Separates the kind of a trigger from its other members, which must have values. -/
def splitKind (kind : Option Kind) (content : List (String × Document)) :
    List (String × Document) → Except Fault (Option Kind × List (String × Document))
  | [] => .ok (kind, content.reverse)
  | ("kind", document) :: rest =>
    match kind with
    | some _ => .error .mismatch
    | none => do splitKind (some (← kindOf document)) content rest
  | member :: rest => do
    usable member.2
    splitKind kind (member :: content) rest

/-- What a trigger of the given kind holds. -/
def decodeContent : Kind → Decoder Trigger
  | .event => Fields.decoder (event
    <$> .required "eventName" Decoder.string
    <*> .optionalLast "condition" Condition.decode)
  | .schedule => Fields.decoder (schedule <$> .required "scheduleExpr" Decoder.string)
  | .manual => fun _ => .ok manual

def decode : Decoder Trigger
  | .object members closed => do
    let (kind, content) ← Decoder.closing closed (← splitKind none [] members)
    decodeContent (← Decoder.expect kind) (.object content true)
  | .array (first :: rest) closed => do
    let kind ← kindOf first
    rest.forM usable
    decodeContent (← Decoder.closing closed kind) (.array rest true)
  | .array [] closed => .error (if closed then .mismatch else .malformed)
  | document => Decoder.refuse document

end Trigger

namespace Argument

def decode : Decoder Argument
  | .string s => .ok (string s)
  | document => (Decoder.double document).map number

/-- The form of an argument within a program, where numbers stay doubles. -/
def toProgramJson : Argument → Json
  | number d => .ofDouble d
  | string s => .string s

end Argument

namespace Action

def toJson (action : Action) : Json :=
  .object [("command", .string action.command),
    ("args", .array (action.arguments.map Argument.toProgramJson))]

def decode : Decoder Action := Fields.decoder (mk
  <$> .required "command" Decoder.string
  <*> .required "args" (Decoder.list Argument.decode))

end Action

namespace Rule

def toJson (rule : Rule) : Json :=
  .object [("trigger", rule.trigger.toJson), ("actions", .array (rule.actions.map Action.toJson))]

def decode : Decoder Rule := Fields.decoder (mk
  <$> .required "trigger" Trigger.decode
  <*> .required "actions" (Decoder.list Action.decode))

end Rule

namespace Program

def toJson (program : Program) : Json :=
  .object [("rules", .array (program.rules.map Rule.toJson))]

def decode : Decoder Program := Fields.decoder (mk
  <$> .required "rules" (Decoder.list Rule.decode))

end Program
end Automation
