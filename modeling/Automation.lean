import Automation.Http.Interface
import Automation.Main
import Automation.Proofs.CommandLine.Run
import Automation.Proofs.Engine.Bookkeeping
import Automation.Proofs.Engine.Counter
import Automation.Proofs.Engine.Diagnosed
import Automation.Proofs.Engine.Executions
import Automation.Proofs.Engine.Refusal
import Automation.Proofs.Engine.Reopen
import Automation.Proofs.Engine.Report
import Automation.Proofs.Engine.Schedule
import Automation.Proofs.Engine.Unsaved
import Automation.Proofs.Http.Patch
import Automation.Proofs.Placeholder.Decomposition
import Automation.Proofs.Placeholder.Idempotent
import Automation.Proofs.Program.Numbers
import Automation.Proofs.Program.Warnings
import Automation.Proofs.Rule.Deeds
import Automation.Proofs.Table.History
import Automation.Proofs.Token.Printing
import Automation.Proofs.Token.Span
import Automation.Proofs.Workflow.Backoff
import Automation.Proofs.Workflow.Chronicle
import Automation.Proofs.Workflow.Converted
import Automation.Proofs.Workflow.Depth
import Automation.Proofs.Workflow.Meaning
import Automation.Proofs.Workflow.Moments
import Automation.Proofs.Workflow.Orders
import Automation.Proofs.Workflow.Retries
import Automation.Proofs.Workflow.Ties
import Automation.Proofs.Workflow.Waits
