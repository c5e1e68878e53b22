import Automation.Counter
import Automation.Diagnostic
import Automation.Time.Instant
import Automation.Uuid

/-!
# Scripts

A script is kept as its code. The errors of the code are kept beside it and are brought up to date
with every change of the code; the program is compiled whenever it is asked for.
-/
namespace Automation

structure Script where
  id : Uuid
  name : String
  code : String
  enabled : Bool
  createdAt : Instant
  lastRun : Option Instant
  runCount : UInt64
  diagnostics : List Diagnostic
  deriving DecidableEq, Inhabited

namespace Script

/-- A new script, enabled and never run. -/
def create (id : Uuid) (now : Instant) (name code : String) : Script :=
  ⟨id, name, code, true, now, none, 0, Diagnostic.errorsOf code⟩

def setCode (script : Script) (code : String) : Script :=
  { script with code, diagnostics := Diagnostic.errorsOf code }

/-- Whether the last check of the code found no error. -/
def isValid (script : Script) : Bool := !script.diagnostics.any Diagnostic.isError

def program (script : Script) : Except SyntaxError Program := Program.compile script.code

/-- Counts a run; a full counter crashes. -/
def recordRun (script : Script) (now : Instant) : Except String Script := do
  return { script with runCount := ← Counter.next script.runCount, lastRun := some now }

end Script
end Automation
