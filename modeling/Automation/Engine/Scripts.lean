import Automation.Engine
import Automation.Rule.Run

/-!
# The scripts of an engine
-/
namespace Automation.Engine

variable {η : Type}

def createScript (name code : String) : Operation η Script :=
  attempt fun s =>
    let (id, s) := s.takeId
    let (now, s) := s.now
    let script := Script.create id now name code
    let (result, s) := s.changeScripts (Table.insert scriptFormat id script)
    ((result.map fun () => script).mapError .database, s)

def getScript (id : Uuid) : Operation η Script :=
  Routine.read fun s => (s.scripts.get id).mapError (.ofStorage (.scriptNotFound id))

/-- Every script, the oldest first. -/
def listScripts : Routine (State η) (List Script) := Routine.read State.scriptList

/-- Changes a script and returns it. -/
def updateScript (id : Uuid) (change : Script → Script) : Operation η Script :=
  attempt fun s =>
    let (result, s) := s.changeScripts <| Table.update scriptFormat id fun script =>
      (change script, change script)
    (result.mapError (.ofStorage (.scriptNotFound id)), s)

/-- The code is kept even if it does not compile. -/
def updateCode (id : Uuid) (code : String) : Operation η Script :=
  updateScript id fun script => script.setCode code

def renameScript (id : Uuid) (name : String) : Operation η Script :=
  updateScript id fun script => { script with name }

def setScriptEnabled (id : Uuid) (enabled : Bool) : Operation η Script :=
  updateScript id fun script => { script with enabled }

def deleteScript (id : Uuid) : Operation η Unit :=
  attempt fun s =>
    let (result, s) := s.changeScripts (Table.delete scriptFormat id)
    ((result.map fun _ => ()).mapError (.ofStorage (.scriptNotFound id)), s)

/-- Counts a run of a script at a given time; a full counter crashes. -/
def recordScriptRun (id : Uuid) (time : Instant) : Operation η Unit :=
  attemptOrCrash fun s => do
    let (result, scripts, storage) ←
      Table.updateOrCrash scriptFormat id (·.recordRun time) (s.scripts, s.storage)
    return (result.mapError (.ofStorage (.scriptNotFound id)), { s with scripts, storage })

/-- Counts a run of a script that has just ended. -/
def recordScriptRunNow (id : Uuid) : Operation η Unit := do
  let now ← always (Routine.atomically State.now)
  recordScriptRun id now

/-- What the validator says about a script, the registered commands being known. -/
def validate (engine : Engine η) (code : String) : List Diagnostic :=
  Diagnostic.allOf code engine.registry.names

/-- One run of one rule of a script. -/
structure ScriptRun where
  scriptId : Uuid
  ruleIndex : Nat
  outcome : Rule.Outcome
  deriving DecidableEq, Inhabited

/-- Runs a rule so that a crash of a command ends the run and nothing else. The rule has a task of
its own, the number of which is only asked for if the task crashes. -/
def interpret (engine : Engine η) (rule : Rule) (context : Context) :
    Routine (State η) Rule.Outcome := do
  match ← (onWorld (rule.run engine.registry context)).guarded with
  | .ok outcome => return outcome
  | .error message =>
    let task ← Routine.atomically State.takeTask
    return .aborted (engine.crashReport task message)

/-- Runs rules one after the other up to the first that fails, and numbers them. -/
def runRules (engine : Engine η) (id : Uuid) (context : Context) (index : Nat) :
    List Rule → Routine (State η) (List ScriptRun)
  | [] => return []
  | rule :: rest => do
    let outcome ← engine.interpret rule context
    let run : ScriptRun := ⟨id, index, outcome⟩
    if outcome.succeeded then
      return run :: (← engine.runRules id context (index + 1) rest)
    else return [run]

/-- Runs every rule of a script whatever its trigger. The run counts as one. -/
def runScript (engine : Engine η) (id : Uuid) (context : Context) :
    Operation η (List ScriptRun) := do
  let script ← getScript id
  match script.program with
  | .error cause => throw (.uncompiled cause)
  | .ok program =>
    let runs ← always (engine.runRules id context 0 program.rules)
    recordScriptRunNow id
    return runs

/-- Runs a rule that something outside has set off. The script may be gone when the run ends. -/
def runRule (engine : Engine η) (id : Uuid) (index : Nat) (rule : Rule) (context : Context) :
    Routine (State η) ScriptRun := do
  let outcome ← engine.interpret rule context
  regardless (recordScriptRunNow id)
  return ⟨id, index, outcome⟩

end Automation.Engine
