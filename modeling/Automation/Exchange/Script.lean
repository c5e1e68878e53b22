import Automation.Exchange.Program
import Automation.Script

/-!
# JSON forms of scripts
-/
namespace Automation

/-- A run counter. -/
def Decoder.count : Decoder UInt64 := fun document => (natural document).map UInt64.ofNat

def Json.ofCount (count : UInt64) : Json := .ofNat count.toNat

def Json.ofUuid (id : Uuid) : Json := .string id.text

def Json.ofInstant (t : Instant) : Json := .string t.text

namespace Script

def toJson (script : Script) : Json :=
  .object [("id", .ofUuid script.id), ("name", .string script.name), ("code", .string script.code),
    ("enabled", .bool script.enabled), ("createdAt", .ofInstant script.createdAt),
    ("lastRun", .ofOption .ofInstant script.lastRun), ("runCount", .ofCount script.runCount),
    ("diagnostics", .array (script.diagnostics.map Diagnostic.toJson))]

def decode : Decoder Script := Fields.decoder (mk
  <$> .required "id" Decoder.uuid
  <*> .required "name" Decoder.string
  <*> .required "code" Decoder.string
  <*> .required "enabled" Decoder.bool
  <*> .required "createdAt" Decoder.instant
  <*> .optionalLast "lastRun" Decoder.instant
  <*> .withDefault "runCount" 0 Decoder.count
  <*> .withDefault "diagnostics" [] (Decoder.list Diagnostic.decode))

end Script
end Automation
