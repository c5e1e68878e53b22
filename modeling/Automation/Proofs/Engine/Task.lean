import Automation.Proofs.Engine.Commits
import Automation.Proofs.Engine.Determined
import Automation.Proofs.Routine.Room
import Automation.Proofs.Routine.Weave
import Automation.Proofs.Table

/-!
# Tasks

A task is what an event or a schedule sets off: a rule of a script or a workflow. It ends with the
count of its run, which crashes if the counter is full. Where every counter has room for the tasks
that count in it, every task ends in a result of its own. It leaves the workflows alone, but for the
count of its runs and the variables of its own workflow; so tasks that are of different workflows do
not disturb each other.
-/
namespace Automation.Engine

open Routine Weave

variable {η α : Type}

theorem calm_interpret (engine : Engine η) (rule : Rule) (context : Context) :
    Calm (engine.interpret rule context) := by
  refine (calm_guarded _).bind fun result => ?_
  cases result with
  | ok outcome => rfl
  | error message => rfl

theorem calm_runToEnd (engine : Engine η) (w : Workflow) (started : Execution)
    (context : Context) : Calm (engine.runToEnd w started context) := by
  refine (calm_guarded _).bind fun result => ?_
  cases result with
  | ok result => rfl
  | error message => rfl

/-- What is done about a run of a rule whose task has crashed: it is counted after all, and reported
as aborted. -/
def replaceRule (engine : Engine η) (id : Uuid) (index : Nat) (message : String) :
    Routine (State η) Result := do
  let task ← Routine.atomically State.takeTask
  regardless (recordScriptRunNow id)
  return .script ⟨id, index, .aborted (engine.crashReport task message)⟩

/-- Only the count of its run can crash the task of a rule. -/
theorem superviseRule_eq (engine : Engine η) (id : Uuid) (index : Nat) (rule : Rule)
    (context : Context) :
    engine.superviseRule id index rule context =
      engine.interpret rule context >>= fun outcome => .commit (fun t => t.now.2) fun t =>
        .commit (countScript id t.now.1) fun s =>
          if s.Full (.script id) then engine.replaceRule id index Counter.overflow
          else .done (.script ⟨id, index, outcome⟩) := by
  unfold superviseRule runRule
  rw [(calm_interpret engine rule context).guarded_bind, bind_assoc]
  refine congrArg (Bind.bind _) (funext fun outcome => congrArg (Routine.commit _)
    (funext fun t => ?_))
  show Routine.bind (((recordScriptRun id t.now.1).run.bind fun _ => Routine.done ()).bind
    _).guarded _ = _
  rw [run_recordScriptRun]
  refine congrArg (Routine.commit _) (funext fun s => ?_)
  dsimp only
  split
  · rfl
  · rfl

/-- The count of a run whose task has crashed may crash again. -/
theorem replaceRule_eq (engine : Engine η) (id : Uuid) (index : Nat) (message : String) :
    engine.replaceRule id index message =
      .commit (fun t => t.takeTask.2) fun t => .commit (fun u => u.now.2) fun u =>
        .commit (countScript id u.now.1) fun s =>
          if s.Full (.script id) then .crash Counter.overflow
          else .done (.script ⟨id, index, .aborted (engine.crashReport t.takeTask.1 message)⟩) := by
  refine congrArg (Routine.commit _) (funext fun t => congrArg (Routine.commit _)
    (funext fun u => ?_))
  show ((recordScriptRun id u.now.1).run.bind fun _ => Routine.done ()).bind _ = _
  rw [run_recordScriptRun]
  refine congrArg (Routine.commit _) (funext fun s => ?_)
  dsimp only
  split
  · rfl
  · rfl

/-- What a run does once it has looked up its workflow. Nothing comes of a run that cannot be
counted. -/
def runFound (engine : Engine η) (id : Uuid) (context : Context) :
    Option Workflow → Routine (State η) Result
  | none => return .nothing
  | some w => do
    let started ← beginExecution w.id
    let result ← engine.runToEnd w started context
    .commit (fun t => t.now.2) fun t => .commit (countWorkflow id t.now.1 result.2) fun s =>
      if s.Full (.workflow id) then .done .nothing
      else do
        archiveExecution engine.historyLimit result.1
        return .workflow result.1

/-- A run that something has set off looks up its workflow first. -/
theorem runWorkflow_eq (engine : Engine η) (id : Uuid) (context : Context) :
    engine.runWorkflow id context =
      .commit (fun s => s) fun s => engine.runFound id context (s.workflows.rows.get? id) := by
  unfold runWorkflow
  rw [run_executeWorkflow]
  refine congrArg (Routine.commit _) (funext fun s => ?_)
  cases hget : s.workflows.rows.get? id with
  | none =>
    have hmissing : s.workflows.get id = .error .notFound := by rw [Table.get, hget]
    simp only [hmissing]
    rfl
  | some w =>
    have hfound : s.workflows.get id = .ok w := by rw [Table.get, hget]
    simp only [hfound]
    have hbegin : Calm (beginExecution w.id : Routine (State η) Execution) := calm_atomically _
    change Routine.guarded _ >>= _ = _
    rw [hbegin.guarded_bind, bind_assoc]
    refine congrArg (Bind.bind _) (funext fun started => ?_)
    rw [(calm_runToEnd engine w started context).guarded_bind, bind_assoc]
    refine congrArg (Bind.bind _) (funext fun result => ?_)
    rw [conclude_eq]
    refine congrArg (Routine.commit _) (funext fun t => congrArg (Routine.commit _)
      (funext fun s => ?_))
    dsimp only
    split
    · rfl
    · rfl

/-- A run of a rule that does not look whether it can be counted. -/
def countedRule (engine : Engine η) (id : Uuid) (index : Nat) (rule : Rule) (context : Context) :
    Routine (State η) Result := do
  let outcome ← engine.interpret rule context
  let now ← Routine.atomically State.now
  Routine.modify (countScript id now)
  return .script ⟨id, index, outcome⟩

/-- A run of a workflow that does not look whether it can be counted, once it has looked up the
workflow. -/
def countedWorkflow (engine : Engine η) (id : Uuid) (context : Context) :
    Option Workflow → Routine (State η) Result
  | none => return .nothing
  | some w => do
    let started ← beginExecution w.id
    let result ← engine.runToEnd w started context
    let now ← Routine.atomically State.now
    Routine.modify (countWorkflow id now result.2)
    archiveExecution engine.historyLimit result.1
    return .workflow result.1

/-- What an event or a schedule sets off. -/
inductive Task where
  | rule (script : Script) (index : Nat) (rule : Rule)
  | workflow (w : Workflow)

namespace Task

def ofScript (fits : Trigger → Bool) (script : Script) : List Task :=
  (fittingRules fits script).map fun (r, index) => rule script index r

/-- What is set off of the scripts and workflows of a state, in the order in which it starts. -/
def all (fits : Trigger → Bool) (s : State η) : List Task :=
  s.scriptList.flatMap (ofScript fits) ++
    (s.workflowList.filter fun w => w.enabled && fits w.trigger).map workflow

def run (engine : Engine η) (context : Context) : Task → Routine (State η) Result
  | rule script index r => engine.superviseRule script.id index r context
  | workflow w => engine.runWorkflow w.id context

/-- The rule that a task runs. -/
def fired? : Task → Option (Uuid × Nat)
  | rule script index _ => some (script.id, index)
  | workflow _ => none

/-- The workflow that a task was made for. -/
def workflow? : Task → Option Workflow
  | rule _ _ _ => none
  | workflow w => some w

/-- What the run of a task is counted of. -/
def subject : Task → Subject
  | rule script _ _ => .script script.id
  | workflow w => .workflow w.id

/-- What a task goes on with after its first step, which looks up its workflow if it has one, when
it does not look whether its run can be counted. -/
def body (engine : Engine η) (context : Context) (s : State η) : Task → Routine (State η) Result
  | rule script index r => engine.countedRule script.id index r context
  | workflow w => engine.countedWorkflow w.id context (s.workflows.rows.get? w.id)

/-- The task when it does not look whether its run can be counted. -/
def plain (engine : Engine η) (context : Context) : Task → Routine (State η) Result
  | rule script index r => engine.countedRule script.id index r context
  | workflow w =>
    .commit (fun s => s) fun s =>
      engine.countedWorkflow w.id context (s.workflows.rows.get? w.id)

end Task

/-- The counters have room for the runs of all these tasks. -/
def Room (tasks : List Task) (s : State η) : Prop :=
  ∀ subject, s.runs subject + tasks.countP (fun task => task.subject = subject) < 2 ^ 64

theorem Room.lt {tasks : List Task} {s : State η} (h : Room tasks s) {task : Task}
    (hmem : task ∈ tasks) : s.runs task.subject + 1 < 2 ^ 64 := by
  have hpos : 0 < tasks.countP fun other => other.subject = task.subject :=
    List.countP_pos_iff.mpr ⟨task, hmem, decide_eq_true rfl⟩
  have hroom := h task.subject
  omega

section Mirrors

theorem coversLog_idles : CoversLog (Idles State.runs : (State η → State η) → Prop) :=
  fun _ _ _ _ => Nat.le_refl _

theorem countsIn_countScript (id : Uuid) (now : Instant) :
    CountsIn State.runs (.script id) (countScript id now : State η → State η) := by
  intro s other
  rw [runs_countScript]
  by_cases hother : other = .script id
  · rw [if_pos hother]
    split
    · exact Nat.le_refl _
    · exact Nat.le_add_right _ _
  · rw [if_neg fun h => hother h.1, if_neg hother]

theorem countsIn_countWorkflow (id : Uuid) (now : Instant) (vars : Variables) :
    CountsIn State.runs (.workflow id) (countWorkflow id now vars : State η → State η) := by
  intro s other
  rw [runs_countWorkflow]
  by_cases hother : other = .workflow id
  · rw [if_pos hother]
    split
    · exact Nat.le_refl _
    · exact Nat.le_add_right _ _
  · rw [if_neg fun h => hother h.1, if_neg hother]

variable (engine : Engine η) (context : Context)

theorem mirrors_superviseRule (id : Uuid) (index : Nat) (rule : Rule) :
    Mirrors State.runs (2 ^ 64) (.script id) (engine.superviseRule id index rule context)
      (engine.countedRule id index rule context) := by
  have hworld := (coversLog_idles : CoversLog (Idles (State.runs (η := η)))).world
  rw [superviseRule_eq]
  refine Mirrors.bind (commits_interpret hworld engine context rule) fun outcome => ?_
  refine .commit (hworld fun s => s.world.now.2) fun t => ?_
  refine .count (countsIn_countScript id t.now.1) (fun s hs => ?_) fun _ => .done _
  exact if_neg (State.not_full_of_runs hs)

theorem mirrors_runWorkflow (w : Workflow) :
    Mirrors State.runs (2 ^ 64) (.workflow w.id) (engine.runWorkflow w.id context)
      ((Task.workflow w).plain engine context) := by
  have hlog : CoversLog (Idles (State.runs (η := η))) := coversLog_idles
  rw [runWorkflow_eq]
  refine .commit (hlog.world State.world) fun s => ?_
  cases s.workflows.rows.get? w.id with
  | none => exact .done _
  | some row =>
    refine Mirrors.bind (commits_beginExecution hlog row.id) fun started => ?_
    refine Mirrors.bind (commits_runToEnd engine context hlog.world row started) fun result => ?_
    refine .commit (hlog.world fun s => s.world.now.2) fun t => ?_
    refine .count (countsIn_countWorkflow w.id t.now.1 result.2) (fun s hs => ?_) fun _ => ?_
    · exact if_neg (State.not_full_of_runs hs)
    · exact .commit (hlog State.world fun s => s.executions.finish result.1 engine.historyLimit)
        fun _ => .done _

/-- A task that finds room for its count does not look for it. -/
theorem Task.mirrors (task : Task) :
    Mirrors State.runs (2 ^ 64) task.subject (task.run engine context)
      (task.plain engine context) := by
  cases task with
  | rule script index r => exact mirrors_superviseRule engine context script.id index r
  | workflow w => exact mirrors_runWorkflow engine context w

variable {engine context}

theorem Task.runAlone_run {task : Task} {s : State η} (h : s.runs task.subject + 1 < 2 ^ 64) :
    (task.run engine context).runAlone s = (task.body engine context s).runAlone s := by
  rw [(task.mirrors engine context).runAlone h]
  cases task with
  | rule script index r => rfl
  | workflow w => rfl

end Mirrors

theorem runAlone_occasion (engine : Engine η) (context : Context) (fits : Trigger → Bool)
    (s : State η) :
    (engine.occasion context fits).runAlone s =
      ⟨.ok ((Task.all fits s).map (Task.run engine context)), s, []⟩ := by
  show (⟨.ok _, s, []⟩ : Ending _ _) = _
  simp only [Task.all, Task.ofScript, List.map_append, List.map_flatMap, List.map_map]
  rfl

/-- A commit that leaves the workflows alone, but may count a run in one of its own. -/
def Counts (own : Option Uuid) (update : State η → State η) : Prop :=
  ∀ s key, (update s).workflows.rows.get? key = s.workflows.rows.get? key ∨
    own = some key ∧ ∃ now vars, (update s).workflows.rows.get? key =
      (s.workflows.rows.get? key).map fun w => w.afterRun now vars

section Counts

variable {own : Option Uuid} {update : State η → State η}

theorem Counts.get?_of_ne (h : Counts own update) {key : Uuid} (hne : own ≠ some key)
    (s : State η) :
    (update s).workflows.rows.get? key = s.workflows.rows.get? key :=
  (h s key).resolve_right fun hown => hne hown.1

/-- Whatever is counted, the workflow under a key keeps its identifier. -/
theorem Counts.map_id (h : Counts own update) (s : State η) (key : Uuid) :
    ((update s).workflows.rows.get? key).map Workflow.id =
      (s.workflows.rows.get? key).map Workflow.id := by
  rcases h s key with hkeep | ⟨-, now, vars, hcount⟩
  · rw [hkeep]
  · rw [hcount, Option.map_map]
    rfl

theorem coversLog_counts : CoversLog (Counts own : (State η → State η) → Prop) :=
  fun _ _ _ _ => Or.inl rfl

theorem counts_countScript (id : Uuid) (now : Instant) :
    Counts own (countScript id now : State η → State η) := by
  intro s key
  rw [countScript]
  split
  · exact Or.inl rfl
  · exact Or.inl rfl

theorem counts_countWorkflow (id : Uuid) (now : Instant) (vars : Variables) :
    Counts (some id) (countWorkflow id now vars : State η → State η) := by
  intro s key
  rw [countWorkflow]
  split
  · exact Or.inl rfl
  · have hrow := Table.get?_rows_update workflowFormat id key
      (fun w : Workflow => ((), w.afterRun now vars)) s.workflows s.storage
    by_cases hkey : id = key
    · rw [if_pos hkey] at hrow
      exact Or.inr ⟨congrArg some hkey, now, vars, hrow⟩
    · rw [if_neg hkey] at hrow
      exact Or.inl hrow

/-- A run of a workflow counts itself where it looked the workflow up. -/
theorem counts_plain (engine : Engine η) (context : Context) (task : Task) :
    Commits (Counts (task.workflow?.map Workflow.id)) (task.plain engine context) := by
  cases task with
  | rule script index r =>
    refine (commits_interpret coversLog_counts.world engine context r).bind fun outcome => ?_
    exact .commit (coversLog_counts.world fun s => s.world.now.2) fun t =>
      .commit (counts_countScript script.id t.now.1) fun _ => .done _
  | workflow w =>
    have hlog : CoversLog (Counts (some w.id) : (State η → State η) → Prop) := coversLog_counts
    refine .commit (hlog.world State.world) fun s => ?_
    cases s.workflows.rows.get? w.id with
    | none => exact .done _
    | some row =>
      refine (commits_beginExecution hlog row.id).bind fun started => ?_
      refine (commits_runToEnd engine context hlog.world row started).bind fun result => ?_
      exact .commit (hlog.world fun s => s.world.now.2) fun t =>
        .commit (counts_countWorkflow w.id t.now.1 result.2) fun _ =>
          .commit (hlog State.world fun s => s.executions.finish result.1 engine.historyLimit)
            fun _ => .done _

end Counts

/-- Which workflow runs when one is set off: it is looked up under its identifier. -/
def State.ran? (s : State η) (w : Workflow) : Option Uuid :=
  (s.workflows.rows.get? w.id).map Workflow.id

/-- A change that leaves the workflows as they are, and after which no script has run more often. -/
structure Undisturbed (s s' : State η) : Prop where
  workflows : s'.workflows = s.workflows
  scripts : ∀ id, s'.runs (.script id) ≤ s.runs (.script id)

theorem Undisturbed.runs_le {s s' : State η} (h : Undisturbed s s') (subject : Subject) :
    s'.runs subject ≤ s.runs subject := by
  cases subject with
  | script id => exact h.scripts id
  | workflow id => rw [State.runs, State.runs, State.runs?, State.runs?, h.workflows]

section Course

variable {engine : Engine η} {context : Context} {pauses : List Duration}
  {outcome : Except String Result}

/-- However a rule ends, something is reported of it. -/
theorem course_countedRule {id : Uuid} {index : Nat} {rule : Rule}
    (h : Course (engine.countedRule id index rule context) pauses outcome) :
    ∃ result, outcome = .ok (.script ⟨id, index, result⟩) := by
  rcases course_bind h with ⟨message, hp, -⟩ | ⟨result, before, after, hp, hlater, -⟩
  · obtain ⟨_, he⟩ := course_interpret hp
    cases he
  · cases hlater with
    | commit s hlater => cases hlater with
      | commit s hlater => cases hlater with
        | done => exact ⟨result, rfl⟩

/-- The run of a workflow that is there gives an execution of that workflow, however it ends. -/
theorem course_countedWorkflow {id : Uuid} {w : Workflow}
    (h : Course (engine.countedWorkflow id context (some w)) pauses outcome) :
    ∃ e, outcome = .ok (.workflow e) ∧ e.workflowId = w.id := by
  rcases course_bind h with ⟨message, hp, -⟩ | ⟨started, before, after, hp, hrun, -⟩
  · obtain ⟨_, he, -⟩ := course_beginExecution hp
    cases he
  obtain ⟨_, he, hid⟩ := course_beginExecution hp
  obtain rfl := Except.ok.inj he
  rcases course_bind hrun with ⟨message, hp, -⟩ | ⟨result, before, after, hp, hend, -⟩
  · obtain ⟨_, he, -⟩ := concludes_runToEnd hp
    cases he
  obtain ⟨_, he, hc⟩ := concludes_runToEnd hp
  obtain rfl := Except.ok.inj he
  cases hend with
  | commit s hend => cases hend with
    | commit s hend => cases hend with
      | commit s hend => cases hend with
        | done => exact ⟨result.1, rfl, hc.workflowId.trans hid⟩

theorem concur_countedRule {rule : Rule} (h : rule.Functional engine.registry) (id : Uuid)
    (index : Nat) (context : Context) :
    Concur (Result.Same engine) (engine.countedRule id index rule context)
      (engine.countedRule id index rule context) := by
  refine (concur_interpret h context).bind fun a b hab => ?_
  exact concur_commit fun _ _ => concur_commit fun _ _ => concur_pure (.script hab)

theorem concur_countedWorkflow (id : Uuid) (context : Context) {found : Option Workflow}
    (h : ∀ w, found = some w → engine.runner.Functional w) :
    Concur (Result.Same engine) (engine.countedWorkflow id context found)
      (engine.countedWorkflow id context found) := by
  cases found with
  | none => exact concur_pure .nothing
  | some w =>
    refine (concur_beginExecution w.id).bind fun e f hef => ?_
    refine (concur_runToEnd (h w rfl) context hef).bind fun x y hxy => ?_
    exact concur_commit fun _ _ => concur_commit fun _ _ => concur_commit fun _ _ =>
      concur_pure (.workflow hxy)

end Course

namespace Task

/-- Whether a result is one of the task in a state. -/
inductive Owns (s : State η) : Task → Result → Prop where
  | rule {script : Script} {index : Nat} {r : Rule} (outcome : Rule.Outcome) :
      Owns s (.rule script index r) (.script ⟨script.id, index, outcome⟩)
  | workflow {w : Workflow} {e : Execution} (h : s.ran? w = some e.workflowId) :
      Owns s (.workflow w) (.workflow e)
  | missing {w : Workflow} (h : s.ran? w = none) : Owns s (.workflow w) .nothing

/-- Every task ends in a result of its own. -/
theorem owns_of_course {engine : Engine η} {context : Context} {s s' : State η} {task : Task}
    (hran : ∀ w, task.workflow? = some w → s'.ran? w = s.ran? w) {pauses : List Duration}
    {outcome : Except String Result} (h : Course (task.body engine context s') pauses outcome) :
    ∃ result, outcome = .ok result ∧ task.Owns s result := by
  cases task with
  | rule script index r =>
    obtain ⟨result, rfl⟩ := course_countedRule h
    exact ⟨_, rfl, .rule result⟩
  | workflow w =>
    have hw := hran w rfl
    rw [body] at h
    unfold State.ran? at hw
    cases hrow : s'.workflows.rows.get? w.id with
    | none =>
      rw [hrow] at h hw
      cases h with
      | done => exact ⟨_, rfl, .missing hw.symm⟩
    | some row =>
      rw [hrow] at h hw
      obtain ⟨e, rfl, hid⟩ := course_countedWorkflow h
      refine ⟨_, rfl, .workflow (hw.symm.trans ?_)⟩
      rw [hid]
      rfl

/-- The handlers and behaviours that a task may call are functions of their arguments. -/
def Functional (engine : Engine η) (s : State η) : Task → Prop
  | rule _ _ r => r.Functional engine.registry
  | workflow w => ∀ row, s.workflows.rows.get? w.id = some row → engine.runner.Functional row

/-- A task whose handlers and behaviours are functions of their arguments comes to the same whatever
the others do. -/
theorem concur_body {engine : Engine η} {context : Context} {s : State η} {task : Task}
    (h : task.Functional engine s) :
    Concur (Result.Same engine) (task.body engine context s) (task.body engine context s) := by
  cases task with
  | rule script index r => exact concur_countedRule h script.id index context
  | workflow w => exact concur_countedWorkflow w.id context h

/-- A task with a goal. -/
def thread (engine : Engine η) (context : Context)
    (goal : Task → List Duration → Except String Result → Prop) (fit : Task → State η → Prop)
    (task : Task) : Thread (State η) Result :=
  ⟨task.plain engine context, goal task, fit task⟩

/-- Tasks that leave the state fit for each other reach their goals. -/
theorem ended_of_fit {engine : Engine η} {context : Context} {s : State η} {tasks : List Task}
    {goal : Task → List Duration → Except String Result → Prop} {fit : Task → State η → Prop}
    (hfit : ∀ task ∈ tasks, fit task s)
    (hgoal : ∀ task s, fit task s → Meets (goal task) [] (task.body engine context s))
    (hspares : ∀ (i j : Nat) a b, tasks[i]? = some a → tasks[j]? = some b → i ≠ j →
      ∀ update, Counts (a.workflow?.map Workflow.id) update → Spares (fit b) update)
    (hsame : ∀ task s s', Undisturbed s s' → fit task s → fit task s') {began : Nat}
    {w : Weave (State η) Result}
    (hw : Reaches Undisturbed (Weave.start began s (tasks.map (run engine context))) w)
    (ho : w.Over) (hroom : Room tasks s) :
    List.Forall₂ (fun task strand => ∃ pauses outcome, goal task pauses outcome ∧
      strand = .ended (began + millis pauses) outcome) tasks w.strands := by
  have hapart : Apart (tasks.map (thread engine context goal fit)) := by
    constructor
    · intro thread hmem
      obtain ⟨task, htask, rfl⟩ := List.mem_map.mp hmem
      cases task with
      | rule script index r => exact .atOnce (hgoal _ s (hfit _ htask))
      | workflow w => exact .read rfl fun s' hs' => hgoal _ s' hs'
    · intro i j a b ha hb hij
      rw [List.getElem?_map, Option.map_eq_some_iff] at ha hb
      obtain ⟨first, hfirst, rfl⟩ := ha
      obtain ⟨second, hsecond, rfl⟩ := hb
      exact (counts_plain engine context first).mono (hspares i j first second hfirst hsecond hij)
  have hstart : Orderly began (tasks.map (thread engine context goal fit))
      (Weave.start began s (tasks.map (plain engine context))) := by
    have hall := @orderly_start _ _ began _ hapart s (List.forall_mem_map.mpr hfit)
    rw [List.map_map] at hall
    exact hall
  have hplain := hw.of_room (fun _ _ h => h.runs_le) (Task.mirrors engine context) hroom ho
  have horderly := hplain.orderly hapart ?_ hstart
  · exact List.forall₂_map_left_iff.mp (horderly.ended ho)
  · intro thread hmem
    obtain ⟨task, -, rfl⟩ := List.mem_map.mp hmem
    exact fun s s' => hsame task s s'

/-- Every run ends in a result of its own. -/
theorem owns_of_over {engine : Engine η} {context : Context} {s : State η} {tasks : List Task}
    {began : Nat} {w : Weave (State η) Result}
    (h : Reaches Undisturbed (Weave.start began s (tasks.map (run engine context))) w)
    (ho : w.Over) (hroom : Room tasks s) :
    List.Forall₂ (fun task strand => ∃ time result, strand = .ended time (.ok result) ∧
      task.Owns s result) tasks w.strands := by
  have hended := @ended_of_fit _ engine context s tasks
    (fun task _ outcome => ∃ result, outcome = .ok result ∧ task.Owns s result)
    (fun task s' => ∀ w, task.workflow? = some w → s'.ran? w = s.ran? w)
    (fun _ _ _ _ => rfl) ?_ ?_ ?_ _ _ h ho hroom
  · refine hended.imp fun task strand hreached => ?_
    obtain ⟨pauses, _, ⟨result, rfl, howns⟩, he⟩ := hreached
    exact ⟨_, result, he, howns⟩
  · intro task s' hran pauses outcome hc
    exact owns_of_course hran hc
  · intro i j a b _ _ _ update hcounts s' hran w hw
    exact (hcounts.map_id s' w.id).trans (hran w hw)
  · intro task s' s'' hs hran w hw
    rw [← hran w hw, State.ran?, hs.workflows]
    rfl

end Task

section Owns

variable {s : State η}

theorem scriptRuns_of_owns {tasks : List Task} {results : List Result}
    (h : List.Forall₂ (Task.Owns s) tasks results) :
    (Report.ofResults results).scriptRuns.map (fun run => (run.scriptId, run.ruleIndex)) =
      tasks.filterMap Task.fired? := by
  induction h with
  | nil => rfl
  | cons howns hrest ih => cases howns with
    | rule outcome => exact congrArg (List.cons _) ih
    | workflow hran => exact ih
    | missing hran => exact ih

theorem executions_of_owns {tasks : List Task} {results : List Result}
    (h : List.Forall₂ (Task.Owns s) tasks results) :
    (Report.ofResults results).executions.map Execution.workflowId =
      (tasks.filterMap Task.workflow?).filterMap s.ran? := by
  induction h with
  | nil => rfl
  | cons howns hrest ih => cases howns with
    | rule outcome => exact ih
    | workflow hran => exact (congrArg (List.cons _) ih).trans (List.filterMap_cons_some hran).symm
    | missing hran => exact ih.trans (List.filterMap_cons_none hran).symm

theorem owns_results {tasks : List Task} {strands : List (Strand (State η) Result)}
    (h : List.Forall₂ (fun task strand => ∃ time result, strand = .ended time (.ok result) ∧
      Task.Owns s task result) tasks strands) (now : Nat) :
    List.Forall₂ (Task.Owns s) tasks (⟨now, s, strands⟩ : Weave (State η) Result).results := by
  induction h with
  | nil => exact .nil
  | cons hfirst hrest ih =>
    obtain ⟨time, result, rfl, howns⟩ := hfirst
    exact .cons howns ih

end Owns

end Automation.Engine
