import Automation.Proofs.CommandLine.Echo
import Automation.Proofs.Engine.Printing
import Automation.Proofs.Engine.Report
import Automation.Proofs.Engine.ScriptRun
import Automation.Proofs.Program.Cut
import Automation.Proofs.Routine.Invariant

/-!
# Running a script from the command line

The engine in which a script runs knows the commands of the program as it was read, and the program
is read once more when the script runs. Both readings are of the same text, so no run meets a
command that is unknown, and nothing but a wait can fail. Without an event the rules run one after
the other; with one, those that it sets off run side by side, and their lines may mix.
-/
namespace Automation.CommandLine

open Routine Engine

/-- The state of an engine that keeps one script, and that in memory only. -/
structure Holds (script : Script) (s : Engine.State Transcript) : Prop where
  fresh : script.runCount = 0
  scripts : s.scripts = ⟨"scripts", false, Dict.empty.insert script.id script⟩
  workflows : s.workflows = Table.transient "workflows"

theorem runAlone_createScript (world : World Transcript) (name code : String) :
    ∃ script s, (createScript name code).run.runAlone (.start world) = ⟨.ok (.ok script), s, []⟩ ∧
      script.program = Program.compile code ∧ script.enabled = true ∧ Holds script s ∧
      s.lines = world.handlers :=
  ⟨_, _, rfl, rfl, rfl, ⟨rfl, rfl, rfl⟩, rfl⟩

/-- The rules that an event sets off, with their numbers. -/
def chosen (program : Program) (name : String) (context : Context) : List (Rule × Nat) :=
  program.rules.zipIdx.filter fun entry => entry.1.trigger.matchesEvent name context

/-- Which of the rules have run. In what order those of an event end is left open. -/
def Selected (program : Program) (context : Context) (runs : List ScriptRun)
    (log : List (Nat × String)) : Option String → Prop
  | none => InOrder 0 program.rules runs log
  | some name => (runs.map ScriptRun.ruleIndex).Perm ((chosen program name context).map Prod.snd)

section Runs

variable {engine : Engine Transcript} {context : Context} {script : Script} {program : Program}
  {s : Engine.State Transcript} {account : Rule → Rule.Outcome → List String → Prop}

theorem Holds.get? (h : Holds script s) : s.scripts.rows.get? script.id = some script := by
  rw [h.scripts, Dict.get?_insert, if_pos rfl]

theorem Holds.coversWorld : CoversWorld (Weave.Spares (Holds script)) :=
  fun _ _ h => ⟨h.fresh, h.scripts, h.workflows⟩

/-- Nothing has run yet. -/
theorem Holds.runs_eq (h : Holds script s) (subject : Subject) : s.runs subject = 0 := by
  rw [State.runs]
  cases subject with
  | workflow key =>
    rw [State.runs?, h.workflows]
    rfl
  | script key =>
    rw [State.runs?, h.scripts, Dict.get?_insert]
    by_cases hkey : script.id = key
    · rw [if_pos hkey, Option.map_some, h.fresh]
      rfl
    · rw [if_neg hkey]
      rfl

/-- Nothing can be wrong with the count of a run. -/
theorem Holds.runAlone_concludeScript (h : Holds script s) (runs : List ScriptRun) :
    ∃ left, (concludeScript script.id runs).runAlone s = ⟨.ok (.ok runs), left, []⟩ ∧
      left.lines = s.lines := by
  have hnow : Holds script s.now.2 := Holds.coversWorld (fun s => s.now.2.world) s h
  have hroom : ¬ s.now.2.Full (.script script.id) := by
    refine State.not_full_of_runs ?_
    rw [hnow.runs_eq]
    decide
  have hcount : (addScriptRun script.id s.now.1 s.now.2).1 = .ok () := by
    rw [addScriptRun, State.changeScripts, Table.update_of_some scriptFormat _ _ hnow.get?,
      Table.save, if_neg (by rw [hnow.scripts]; exact Bool.false_ne_true)]
  rw [concludeScript_eq]
  refine ⟨countScript script.id s.now.1 s.now.2, ?_, lines_countScript script.id s.now.1 s.now.2⟩
  simp only [runAlone, if_neg hroom, hcount]
  rfl

theorem runAll_inTurn (h : ∀ rule ∈ program.rules, engine.Recites context account rule)
    (hs : Holds script s) (hp : script.program = .ok program) :
    ∃ runs log elapsed, runAll engine script.id context s =
        runOutput (s.lines ++ log.map Prod.snd) elapsed runs ∧
      InTurn account script.id 0 program.rules runs log := by
  obtain ⟨pauses, runs, log, hprints, hturn⟩ := prints_runRules h script.id 0
  obtain ⟨hrules, hlines⟩ := hprints.runAlone s
  have hkept :
      Holds script ((engine.runRules script.id context 0 program.rules).runAlone s).state :=
    (Maintains.of_commits (commits_runRules Holds.coversWorld engine script.id context 0
      program.rules)).runAlone hs
  generalize ((engine.runRules script.id context 0 program.rules).runAlone s).state = after
    at hrules hlines hkept
  obtain ⟨left, hconclude, hleft⟩ := hkept.runAlone_concludeScript runs
  have hending : (engine.runScript script.id context).run.runAlone s =
      ⟨.ok (.ok runs), left, pauses⟩ := by
    rw [run_runScript, Routine.runAlone, hs.get?]
    dsimp only
    rw [hp]
    dsimp only
    rw [runAlone_bind, hrules, Ending.andThen_ok, hconclude, List.append_nil]
  refine ⟨runs, log, Weave.millis pauses, ?_, hturn⟩
  rw [runAll, hending, ← hlines, ← hleft]
  rfl

theorem fittingRules_eq (he : script.enabled = true) (hp : script.program = .ok program)
    (name : String) (context : Context) :
    fittingRules (fitsEvent name context) script = chosen program name context := by
  rw [fittingRules, he, hp]
  rfl

/-- What an event sets off in an engine that keeps one script. -/
theorem Holds.runAlone_event (hs : Holds script s) (he : script.enabled = true)
    (hp : script.program = .ok program) (engine : Engine Transcript) (name : String)
    (context : Context) :
    (engine.event name context).runAlone s = ⟨.ok ((chosen program name context).map fun entry =>
      (Task.rule script entry.2 entry.1).run engine context), s, []⟩ := by
  have hscripts : s.scriptList = [script] := by
    rw [State.scriptList, hs.scripts]
    exact List.mergeSort_singleton script
  have hworkflows : s.workflowList = [] := by
    rw [State.workflowList, hs.workflows]
    exact List.mergeSort_nil
  have htasks : tasks name context s = (chosen program name context).map fun entry =>
      .rule script entry.2 entry.1 := by
    rw [tasks, Task.all, hscripts, hworkflows, List.flatMap_singleton, Task.ofScript,
      fittingRules_eq he hp]
    exact List.append_nil _
  have hevent := runAlone_occasion engine context (fitsEvent name context) s
  rw [← tasks, htasks, List.map_map] at hevent
  exact hevent

/-- The rules that an event sets off have no more actions than the program has. -/
theorem sum_actions_chosen_le (program : Program) (name : String) (context : Context) :
    ((chosen program name context).map fun entry => entry.1.actions.length).sum ≤
      (program.rules.map fun rule => rule.actions.length).sum := by
  have hall : (program.rules.zipIdx.map fun entry => entry.1.actions.length) =
      program.rules.map fun rule => rule.actions.length := by
    conv_rhs => rw [← List.zipIdx_map_fst 0 program.rules]
    rw [List.map_map]
    rfl
  rw [← hall]
  exact (List.filter_sublist.map _).sum_le_sum fun _ _ => Nat.zero_le _

/-- The counter has room for a run of each rule. -/
theorem Holds.room_chosen (hs : Holds script s) (hlength : program.rules.length < 2 ^ 64)
    (name : String) (context : Context) :
    Room ((chosen program name context).map fun entry => .rule script entry.2 entry.1) s := by
  have hcount : (chosen program name context).length ≤ program.rules.length := by
    rw [← @List.length_zipIdx _ program.rules 0]
    exact List.length_filter_le _ _
  refine room_of_runs_le 0 (fun subject => Nat.le_of_eq (hs.runs_eq subject)) ?_
  rw [List.length_map, Nat.zero_add]
  exact Nat.lt_of_le_of_lt hcount hlength

/-- What is printed when all runs that an event sets off have come to results. -/
theorem runEvent_of_results {actions : Nat} {name : String}
    {routines : List (Routine (Engine.State Transcript) Result)} {results : List Result}
    (hevent : (engine.event name context).runAlone s = ⟨.ok routines, s, []⟩)
    (hresults : ((Timeline.playOut actions s routines).1.endings 0).mapM Ended.outcome =
      .ok results) :
    runEvent engine actions name context s =
      runOutput (Timeline.playOut actions s routines).2.lines
        (Timeline.playOut actions s routines).1.now (Report.ofResults results).scriptRuns := by
  unfold Timeline.playOut at hresults ⊢
  simp only [runEvent, hevent, Except.toOption, Option.getD_some, hresults]
  rfl

theorem scriptRuns_ofResults (runs : List ScriptRun) :
    (Report.ofResults (runs.map .script)).scriptRuns = runs := by
  rw [Report.ofResults, List.filterMap_map]
  exact List.filterMap_some

theorem runEvent_accounts (h : ∀ rule ∈ program.rules, engine.Recites context account rule)
    (hs : Holds script s) (he : script.enabled = true) (hp : script.program = .ok program)
    {actions : Nat} (ha : (program.rules.map fun rule => rule.actions.length).sum ≤ actions)
    (hlength : program.rules.length < 2 ^ 64) (name : String) :
    ∃ runs log elapsed, runEvent engine actions name context s =
        runOutput (s.lines ++ log.map Prod.snd) elapsed runs ∧
      (runs.map ScriptRun.ruleIndex).Perm ((chosen program name context).map Prod.snd) ∧
      Accounts account program.rules.zipIdx runs log := by
  have hmem : chosen program name context ⊆ program.rules.zipIdx := List.filter_subset_self _
  have hnodup : ((chosen program name context).map Prod.snd).Nodup :=
    fittingRules_eq he hp name context ▸ nodup_fittingRules _ script
  -- a rule pauses at most once for each of its actions, so the fuel lasts
  have hfuel := (sum_actions_chosen_le program name context).trans ha
  obtain ⟨runs, log, hruns, hlines, hindexes, haccounts⟩ := accounts_playOut
    (fun entry hentry => h entry.1 (List.fst_mem_of_mem_zipIdx (hmem hentry))) hnodup hfuel script
    (hs.room_chosen hlength name context)
  have hrun := runEvent_of_results (hs.runAlone_event he hp engine name context) hruns
  rw [hlines, scriptRuns_ofResults] at hrun
  exact ⟨_, log, _, hrun, hindexes, haccounts.mono hmem⟩

end Runs

/-- A rule of a program in an engine that knows the commands of the program. -/
theorem recites_echoed {program : Program} {rule : Rule} (hr : rule ∈ program.rules)
    (context : Context) (order : Workflow.Order) :
    let names := program.commands.filter fun name => !Diagnostic.builtinCommands.contains name
    (echoEngine names order).Recites context (Rule.Echoed context) rule := by
  refine Rule.prints_run context fun action ha hwait => ?_
  refine List.mem_filter.mpr ⟨Program.command_mem_commands hr ha, ?_⟩
  rw [Action.waitName] at hwait
  simpa [Diagnostic.builtinCommands] using hwait

theorem unknown_of_accounts {context : Context} {numbered : List (Rule × Nat)}
    {runs : List ScriptRun} {log : List (Nat × String)}
    (h : Accounts (Rule.Echoed context) numbered runs log) :
    ∀ run ∈ runs, run.outcome.unknown = [] := by
  intro run hrun
  obtain ⟨rule, -, hechoed⟩ := h.account run hrun
  exact hechoed.unknown

/-- The line that reports a run, one that met no unknown command. -/
def reportLine (run : ScriptRun) : String :=
  let outcome := Json.record [("completedActions", some (.ofNat run.outcome.completed)),
    ("unknownCommands", some (.array [])),
    ("error", run.outcome.failure.map Rule.Failure.toJson)]
  "rule #" ++ toString run.ruleIndex ++ ": " ++ outcome.compact

/-- What the program leaves behind: it has printed lines, and one more for each run or one that says
that there was none, and it ends with success if no run has failed. -/
structure Leaves (lines : List String) (runs : List ScriptRun) (output : Output) : Prop where
  standardOutput : output.standardOutput =
    textOfLines (lines ++ if runs.isEmpty then ["no rule matched"] else runs.map reportLine)
  crash : output.crash = none
  exitCode : output.exitCode = if runs.all (·.outcome.succeeded) then 0 else 1

theorem leaves_of_runOutput {lines : List String} {runs : List ScriptRun} {elapsed : Nat}
    {output : Output} (houtput : output = runOutput lines elapsed runs)
    (h : ∀ run ∈ runs, run.outcome.unknown = []) : Leaves lines runs output := by
  subst houtput
  constructor
  · have hreports : runs.map reportLine = runs.map fun run =>
        "rule #" ++ toString run.ruleIndex ++ ": " ++ run.outcome.toJson.compact := by
      refine List.map_congr_left fun run hrun => ?_
      rw [reportLine, Rule.Outcome.toJson, Rule.Outcome.members, h run hrun]
      rfl
    rw [hreports]
    exact String.append_empty
  · rfl
  · have hcomplaint : (runs.findSome? fun run => run.outcome.failure).isSome =
        !runs.all (·.outcome.succeeded) := by
      rw [List.isSome_findSome?, List.not_all_eq_any_not]
      exact List.any_congr rfl fun run => by simp [Rule.Outcome.succeeded]
    rw [Output.exitCode, runOutput]
    simp only [Option.isSome_map, hcomplaint]
    cases runs.all (·.outcome.succeeded) <;> rfl

/-- Whatever script compiles, with or without an event: every action that a run completes is a wait
or is printed, once and in the order of the rule, by a run that meets no unknown command and can
only fail at a wait. Nothing else is printed before the reports of the runs. A text that a machine
of 64 bits can hold has no more rules than can be counted. -/
theorem run_echoes {files : Files} {path code : String} {program : Program}
    (hread : files.read path = .ok code) (hsize : code.length < 2 ^ 64)
    (hcompiles : Program.compile code = .ok program)
    (event : Option String) (context : Context) (world : World Transcript) :
    ∃ runs log, Leaves (world.handlers ++ log.map Prod.snd) runs
        ((Invocation.run path event context).answer world files) ∧
      Selected program context runs log event ∧
      Accounts (Rule.Echoed context) program.rules.zipIdx runs log := by
  have hanswer : (Invocation.run path event context).answer world files =
      run world path code event context := by
    simp only [Invocation.answer, hread]
  obtain ⟨script, s, hcreate, hprogram, henabled, hholds, hlines⟩ :=
    runAlone_createScript world (scriptName path) code
  have hlength := Nat.lt_of_le_of_lt (Program.length_rules_le hcompiles) hsize
  rw [hcompiles] at hprogram
  have hrules := fun rule (hr : rule ∈ program.rules) => recites_echoed hr context .stored
  rw [hanswer, run, hcompiles, ← hlines]
  dsimp only
  rw [hcreate]
  cases event with
  | none =>
    obtain ⟨runs, log, elapsed, hrun, hturn⟩ := runAll_inTurn hrules hholds hprogram
    exact ⟨runs, log, leaves_of_runOutput hrun (unknown_of_accounts hturn.accounts), hturn.inOrder,
      hturn.accounts⟩
  | some name =>
    obtain ⟨runs, log, elapsed, hrun, hselected, haccounts⟩ := runEvent_accounts hrules hholds
      henabled hprogram (Nat.le_of_eq List.sum_eq_foldr) hlength name
    exact ⟨runs, log, leaves_of_runOutput hrun (unknown_of_accounts haccounts), hselected,
      haccounts⟩

namespace Clock

def code : String :=
  "on noon do tick() wait(1) tock() end " ++
    "on noon do ring('\x7b\x7bbell\x7d\x7d', 2) wait('soon') end"

def program : Program :=
  ⟨[⟨.event "noon" none, [⟨"tick", []⟩, ⟨"wait", [.number (.ofInt 1)]⟩, ⟨"tock", []⟩]⟩,
    ⟨.event "noon" none, [⟨"ring", [.string "\x7b\x7bbell\x7d\x7d", .number (.ofInt 2)]⟩,
      ⟨"wait", [.string "soon"]⟩]⟩]⟩

def files : Files := ⟨fun _ => .ok code, fun _ => .error .missing⟩

def world : World Transcript :=
  ⟨[], 0, ⟨fun n => ⟨BitVec.ofNat 128 n⟩, 0⟩, ⟨fun n => ⟨n, 0⟩, 0⟩, ⟨fun n => n, 0⟩,
    ⟨fun n => n, 0⟩⟩

def context : Context := Dict.empty.insert "bell" "dong"

def output : Output := (Invocation.run "clock" (some "noon") context).answer world files

def text : String :=
  "tick()\nring(\"dong\", 2)\ntock()\n" ++
    "rule #1: \x7b\"completedActions\":1,\"unknownCommands\":[],\"error\":\x7b\"index\":1," ++
    "\"command\":\"wait\",\"message\":\"wait expects a number of seconds\"\x7d\x7d\n" ++
    "rule #0: \x7b\"completedActions\":3,\"unknownCommands\":[]\x7d\n"

/-- At noon the clock rings between the tick and the tock, and then it cannot wait. -/
theorem run_echoes_clock : files.read "clock" = .ok code ∧ code.length < 2 ^ 64 ∧
    Program.compile code = .ok program ∧ output.standardOutput = text ∧ output.exitCode = 1 ∧
    ∃ runs log, Leaves (world.handlers ++ log.map Prod.snd) runs output ∧
      Selected program context runs log (some "noon") ∧
      Accounts (Rule.Echoed context) program.rules.zipIdx runs log := by
  have hsize : code.length < 2 ^ 64 := by decide +kernel
  have hcompiles : Program.compile code = .ok program := by decide +kernel
  exact ⟨rfl, hsize, hcompiles, by decide +kernel, by decide +kernel,
    run_echoes rfl hsize hcompiles (some "noon") context world⟩

end Clock

end Automation.CommandLine
