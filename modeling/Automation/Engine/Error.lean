import Automation.Diagnostic
import Automation.Table
import Automation.Workflow

/-!
# Errors of the engine
-/
namespace Automation

inductive EngineError where
  | scriptNotFound (id : Uuid)
  | workflowNotFound (id : Uuid)
  | nodeNotFound (workflowId : Uuid) (nodeId : String)
  | uncompiled (cause : SyntaxError)
  | graph (cause : GraphError)
  | database (cause : StorageError)
  deriving DecidableEq

namespace EngineError

def message : EngineError → String
  | scriptNotFound id => "script " ++ id.text ++ " not found"
  | workflowNotFound id => "workflow " ++ id.text ++ " not found"
  | nodeNotFound workflowId nodeId =>
    "node '" ++ nodeId ++ "' not found in workflow " ++ workflowId.text
  | uncompiled cause =>
    "script does not compile: line " ++ toString cause.line ++ ", column "
      ++ toString cause.column ++ ": " ++ cause.message
  | graph cause => cause.message
  | database cause => "database error: " ++ cause.message

/-- A missing row has an error of its own, which says what is missing. -/
def ofStorage (missing : EngineError) : StorageError → EngineError
  | .notFound => missing
  | e => database e

end EngineError
end Automation
