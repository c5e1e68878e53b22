import Automation.CommandLine.Address
import Automation.CommandLine.Invocation
import Automation.CommandLine.Output
import Automation.Engine.Events
import Automation.Exchange.Report
import Automation.Folder
import Automation.Routine.Timeline

/-!
# The command line

What the program prints for an invocation, and whether it fails. Commands of scripts and workflows
are not carried out here: every call is printed.
-/
namespace Automation.CommandLine

/-- Where the program finds its files. -/
structure Files where
  read : String → Except PathError String
  storage : String → Except PathError Storage

def Files.ofFolder (folder : Folder) : Files := ⟨folder.read, folder.storage⟩

/-- The lines that have been printed. -/
abbrev Transcript := List String

/-- A command that prints its calls. -/
def echo (name : String) : Handler Transcript := fun args => do
  let call := name ++ "(" ++ String.intercalate ", " (args.map Json.compact) ++ ")"
  Routine.modify fun lines => lines ++ [call]
  return .ok .null

def echoes (names : List String) : Registry Transcript :=
  Registry.ofList (names.map fun name => (name, echo name))

/-- The commands that the built-in behaviours call. -/
def forwardedCommands : List String := ["switchScene", "playSound", "showAlert", "speak"]

/-- An engine whose commands print their calls. -/
def echoEngine (names : List String) (order : Workflow.Order) : Engine Transcript :=
  let registry := echoes names
  ⟨registry, ⟨Behavior.builtin registry, order, Workflow.RetryPolicy.standard⟩, Catalog.builtin,
    Engine.defaultHistoryLimit, Engine.taskCrashed⟩

/-- The name of the script in a file: that of the file without the extension. -/
def scriptName (path : String) : String :=
  let name := ((Text.splitAt '/' path).getLast?).getD ""
  match Text.cutAtLast? '.' name with
  | some (stem, _) => if stem.isEmpty then name else stem
  | none => name

def cannotRead (path : String) (cause : PathError) : Output :=
  .failure ⟨[], "cannot read file " ++ path, [cause.message]⟩

def validate (path code : String) : Output :=
  match Diagnostic.errorsOf code with
  | [] => .success ("✅ " ++ path ++ " is valid\n")
  | errors =>
    let line (d : Diagnostic) : String :=
      path ++ ":" ++ toString d.line ++ ":" ++ toString d.column ++ ": Error: " ++ d.message
    .failure ⟨errors.map line, path ++ " has " ++ toString errors.length ++ " error(s)", []⟩

def kindName : Token.Kind → String
  | .keyword => "Keyword"
  | .identifier => "Identifier"
  | .operator => "Operator"
  | .string => "String"
  | .number => "Number"
  | .symbol => "Symbol"

def tokenLine (token : Token) : String :=
  toString token.line ++ ":" ++ toString token.column ++ "\t" ++ kindName token.kind ++ "\t"
    ++ token.value

def convert (world : World Transcript) (path code : String) : Output :=
  let (id, world) := world.takeId
  let (created, world) := world.now
  let script := Script.create id created (scriptName path) code
  let (now, world) := world.now
  match Workflow.ofScript script Catalog.builtin now world.ids with
  | .ok (w, _) => .success (w.toJson.pretty ++ "\n")
  | .error e => .failure ⟨[], "cannot convert " ++ path, causesOf e⟩

/-- What is printed about the runs of a script, after what its commands printed. -/
def runOutput (lines : Transcript) (elapsed : Nat) (runs : List Engine.ScriptRun) : Output :=
  let reports := runs.map fun run =>
    "rule #" ++ toString run.ruleIndex ++ ": " ++ run.outcome.toJson.compact
  let failure := runs.findSome? fun run => run.outcome.failure
  ⟨textOfLines (lines ++ if runs.isEmpty then ["no rule matched"] else reports), none,
    failure.map fun f => .plain f.text, elapsed, none⟩

/-- What is printed when the program crashes: what its commands printed before. -/
def crashOutput (lines : Transcript) (elapsed : Nat) (message : String) : Output :=
  ⟨textOfLines lines, none, none, elapsed, some message⟩

/-- Runs every rule of the script, one after the other. -/
def runAll (engine : Engine Transcript) (id : Uuid) (context : Context)
    (state : Engine.State Transcript) : Output :=
  let ending := (engine.runScript id context).run.runAlone state
  match ending.outcome with
  | .ok (.ok runs) => runOutput ending.state.world.handlers ending.elapsed runs
  | .ok (.error e) => .failure (.ofError e)
  | .error message => crashOutput ending.state.world.handlers ending.elapsed message

/-- Runs the rules that an event sets off, side by side. No action pauses more than once, so the
number of actions bounds the number of awakenings. -/
def runEvent (engine : Engine Transcript) (actions : Nat) (event : String) (context : Context)
    (state : Engine.State Transcript) : Output :=
  let ending := (engine.event event context).runAlone state
  let routines := ending.outcome.toOption.getD []
  let (timeline, state) := Timeline.start.launch ending.state 0 0 routines
  let (timeline, state) := Timeline.await 0 routines.length actions timeline state
  match (timeline.endings 0).mapM Ended.outcome with
  | .ok results =>
    let report := Engine.Report.ofResults results
    runOutput state.world.handlers timeline.now report.scriptRuns
  | .error message => crashOutput state.world.handlers timeline.now message

/-- Runs a script in an engine of its own, which knows every command of the script. -/
def run (world : World Transcript) (path code : String) (event : Option String)
    (context : Context) : Output :=
  match Program.compile code with
  | .error e => .failure (.plain (path ++ " does not compile: " ++ e.message))
  | .ok program =>
    let names := program.commands.filter fun name => !Diagnostic.builtinCommands.contains name
    let engine := echoEngine names .stored
    let created := (Engine.createScript (scriptName path) code).run.runAlone (.start world)
    match created.outcome with
    | .error message => crashOutput created.state.world.handlers created.elapsed message
    | .ok (.error e) => .failure (.ofError e)
    | .ok (.ok script) =>
      match event with
      | none => runAll engine script.id context created.state
      | some name =>
        let actions := (program.rules.map fun rule => rule.actions.length).foldr (· + ·) 0
        runEvent engine actions name context created.state

/-- Imports a workflow and runs it; there is no result if the text cannot be imported. -/
def importAndRun (engine : Engine Transcript) (text : String) (context : Context) :
    Engine.Operation Transcript (Option Execution) := do
  match ← Engine.always (Engine.importWorkflow text) with
  | none => return none
  | some w => return some (← engine.executeWorkflow w.id context)

def execute (world : World Transcript) (path text : String) (context : Context)
    (order : Workflow.Order) : Output :=
  let engine := echoEngine forwardedCommands order
  let ending := (importAndRun engine text context).run.runAlone (.start world)
  match ending.outcome with
  | .ok (.ok (some e)) =>
    ⟨textOfLines ending.state.world.handlers, some e,
      e.error.map fun reason => .plain ("execution failed: " ++ reason), ending.elapsed, none⟩
  | .ok (.ok none) => .failure (.plain (path ++ " is not a workflow export"))
  | .ok (.error e) => .failure (.ofError e)
  | .error message => crashOutput ending.state.world.handlers ending.elapsed message

/-- Opens the engine and then listens. -/
def serve (world : World Transcript) (files : Files) (address : String)
    (folder : Option String) : Output :=
  let opened : Except EngineError (Engine.State Transcript) := do
    match folder with
    | none => .ok (.start world)
    | some path =>
      let storage ← (files.storage path).mapError fun cause => .database (.io cause)
      Engine.State.load world storage true
  match opened with
  | .error e => .failure ⟨[], "failed to open the automation engine", causesOf e⟩
  | .ok _ => .failure ⟨[], "API server failed", [(Address.refusal address).message]⟩

namespace Invocation

/-- What an invocation comes to in a world that has printed nothing yet. -/
def answer (invocation : Invocation) (world : World Transcript) (files : Files) : Output :=
  let withText (path : String) (use : String → Output) : Output :=
    match files.read path with
    | .ok text => use text
    | .error cause => cannotRead path cause
  match invocation with
  | validate path => withText path (CommandLine.validate path)
  | tokens path => withText path fun code =>
    .success (textOfLines ((Token.scan code).map tokenLine))
  | run path event context => withText path fun code =>
    CommandLine.run world path code event context
  | convert path => withText path (CommandLine.convert world path)
  | execute path context order => withText path fun text =>
    CommandLine.execute world path text context order
  | serve address folder _ => CommandLine.serve world files address folder
  | inform text => .success text

end Invocation
end Automation.CommandLine
