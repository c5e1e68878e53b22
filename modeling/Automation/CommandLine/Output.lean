import Automation.Engine.Error
import Automation.Exchange.Execution
import Automation.Text.Split

/-!
# What the program prints

The program prints a text and perhaps an execution, and it may end with a complaint: one line, after
which come the causes of what went wrong, each indented. It may also crash, and then says why in
its runtime's own way.
-/
namespace Automation.CommandLine

def textOfLines (lines : List String) : String := String.join (lines.map fun line => line ++ "\n")

/-- An engine error and what it comes from, the outermost first. -/
def causesOf (e : EngineError) : List String :=
  e.message :: match e with
    | .database (.io cause) => [(StorageError.io cause).message, cause.message]
    | .database (.corrupt fault) => [(StorageError.corrupt fault).message, fault.message]
    | .database cause => [cause.message]
    | _ => []

/-- What went wrong, and what that came from. -/
structure Complaint where
  /-- Lines that stand before the complaint. -/
  lines : List String
  message : String
  causes : List String

namespace Complaint

def plain (message : String) : Complaint := ⟨[], message, []⟩

def ofError (e : EngineError) : Complaint := ⟨[], e.message, (causesOf e).drop 1⟩

/-- A cause in its paragraph: later lines of it are indented as the first. -/
def paragraph (mark text : String) : String :=
  let indent := String.ofList (List.replicate mark.length ' ')
  mark ++ String.intercalate ("\n" ++ indent) (Text.splitAt '\n' text) ++ "\n"

/-- Several causes are numbered. -/
def causesText : List String → String
  | [] => ""
  | [cause] => "\nCaused by:\n" ++ paragraph "    " cause
  | causes => "\nCaused by:\n" ++ String.join (causes.zipIdx.map fun (cause, index) =>
      paragraph ("    " ++ toString index ++ ": ") cause)

def text (complaint : Complaint) : String :=
  textOfLines complaint.lines ++ "Error: " ++ complaint.message ++ "\n"
    ++ causesText complaint.causes

end Complaint

/-- What an invocation comes to. An execution is printed after everything else. -/
structure Output where
  printed : String
  execution : Option Execution
  complaint : Option Complaint
  /-- For how many milliseconds the program paused. -/
  elapsed : Nat
  /-- The message of the crash that ended the program, if one did. -/
  crash : Option String

namespace Output

def failure (complaint : Complaint) : Output := ⟨"", none, some complaint, 0, none⟩

def success (printed : String) : Output := ⟨printed, none, none, 0, none⟩

/-- The exit code of a program that crashed. -/
def crashCode : Nat := 101

def exitCode (output : Output) : Nat :=
  if output.crash.isSome then crashCode else if output.complaint.isSome then 1 else 0

/-- The exit code for a command line that makes no sense. -/
def misuseCode : Nat := 2

def standardOutput (output : Output) : String :=
  output.printed ++ (output.execution.map fun e => e.toJson.pretty ++ "\n").getD ""

def standardError (output : Output) : String :=
  match output.crash with
  | some message => message ++ "\n"
  | none => (output.complaint.map Complaint.text).getD ""

end Output

end Automation.CommandLine
