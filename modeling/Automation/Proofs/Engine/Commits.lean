import Automation.Engine.Events
import Automation.Proofs.Engine.Call
import Automation.Proofs.Table

/-!
# The commits of a run

Of all that a run of a script or a workflow commits, only the count at its end touches the tables;
the other commits change the world, or the executions. So whatever holds of commits of these kinds
holds of every commit of a run, and need not be shown along the run again. The count adds one,
unless the counter is full: then it crashes and leaves the tables as they are.
-/
namespace Automation

/-- The script once a run of it has been counted. -/
def Script.afterRun (script : Script) (now : Instant) : Script :=
  { script with runCount := script.runCount + 1, lastRun := some now }

/-- The workflow once a run of it has been counted. -/
def Workflow.afterRun (w : Workflow) (now : Instant) (vars : Variables) : Workflow :=
  { w with runCount := w.runCount + 1, lastRun := some now, vars }

theorem Script.recordRun_eq (script : Script) (now : Instant) :
    script.recordRun now = if script.runCount = Counter.largest then .error Counter.overflow
      else .ok (script.afterRun now) := by
  rw [recordRun, Counter.next]
  split <;> rfl

theorem Workflow.recordRun_eq (w : Workflow) (now : Instant) (vars : Variables) :
    w.recordRun now vars = if w.runCount = Counter.largest then .error Counter.overflow
      else .ok (w.afterRun now vars) := by
  rw [recordRun, Counter.next]
  split <;> rfl

namespace Engine

open Routine

variable {η α β : Type}

/-- What runs are counted of. -/
inductive Subject where
  | script (id : Uuid)
  | workflow (id : Uuid)
  deriving DecidableEq

/-- How often something has run. -/
def State.runs? (s : State η) : Subject → Option UInt64
  | .script id => (s.scripts.rows.get? id).map Script.runCount
  | .workflow id => (s.workflows.rows.get? id).map Workflow.runCount

/-- No more runs can be counted. -/
def State.Full (s : State η) (subject : Subject) : Prop := s.runs? subject = some Counter.largest

instance (s : State η) (subject : Subject) : Decidable (s.Full subject) :=
  inferInstanceAs (Decidable (s.runs? subject = some Counter.largest))

/-- How often something has run, as a number; what is not there has not run. -/
def State.runs (s : State η) (subject : Subject) : Nat :=
  ((s.runs? subject).map UInt64.toNat).getD 0

theorem State.runs_lt (s : State η) (subject : Subject) : s.runs subject < 2 ^ 64 := by
  rw [runs]
  cases s.runs? subject with
  | none => exact Nat.two_pow_pos 64
  | some count => exact count.toNat_lt

/-- A counter is full at the largest number of 64 bits. -/
theorem State.full_iff {s : State η} {subject : Subject} :
    s.Full subject ↔ s.runs subject = 2 ^ 64 - 1 := by
  have hlargest : Counter.largest.toNat = 2 ^ 64 - 1 := rfl
  rw [Full, runs, ← hlargest]
  cases s.runs? subject with
  | none => exact iff_of_false nofun (by decide)
  | some count => exact Option.some_inj.trans UInt64.toNat_inj.symm

theorem State.not_full_of_runs {s : State η} {subject : Subject}
    (h : s.runs subject + 1 < 2 ^ 64) : ¬ s.Full subject := by
  rw [full_iff]
  omega

/-- A counter that is full stays so if nothing takes it back. -/
theorem State.Full.mono {s s' : State η} {subject : Subject} (h : s.Full subject)
    (hle : s.runs subject ≤ s'.runs subject) : s'.Full subject := by
  have hlt := s'.runs_lt subject
  rw [full_iff] at h ⊢
  omega

/-- A run of a script is counted, whether or not there is room for it. -/
def addScriptRun (id : Uuid) (now : Instant) (s : State η) :
    Except StorageError Unit × State η :=
  s.changeScripts (Table.update scriptFormat id fun script => ((), script.afterRun now))

/-- A run of a workflow is counted, whether or not there is room for it. -/
def addWorkflowRun (id : Uuid) (now : Instant) (vars : Variables) (s : State η) :
    Except StorageError Unit × State η :=
  s.changeWorkflows (Table.update workflowFormat id fun w => ((), w.afterRun now vars))

/-- The commit that counts a run of a script. -/
def countScript (id : Uuid) (now : Instant) (s : State η) : State η :=
  if s.Full (.script id) then s else (addScriptRun id now s).2

/-- The commit that counts a run of a workflow. -/
def countWorkflow (id : Uuid) (now : Instant) (vars : Variables) (s : State η) : State η :=
  if s.Full (.workflow id) then s else (addWorkflowRun id now vars s).2

section Runs

variable (id : Uuid) (now : Instant) (s : State η) (subject : Subject)

theorem runs?_addScriptRun : (addScriptRun id now s).2.runs? subject =
    if subject = .script id then (s.runs? subject).map (· + 1) else s.runs? subject := by
  cases subject with
  | workflow key => rfl
  | script key =>
    refine (Table.map_get?_rows_update scriptFormat id key (fun script => ((), script.afterRun now))
      Script.runCount (· + 1) (fun _ => rfl) s.scripts s.storage).trans ?_
    by_cases hkey : id = key
    · rw [if_pos hkey, if_pos (congrArg Subject.script hkey.symm)]
      rfl
    · rw [if_neg hkey, if_neg fun h => hkey (Subject.script.inj h).symm]
      rfl

theorem runs?_addWorkflowRun (vars : Variables) : (addWorkflowRun id now vars s).2.runs? subject =
    if subject = .workflow id then (s.runs? subject).map (· + 1) else s.runs? subject := by
  cases subject with
  | script key => rfl
  | workflow key =>
    refine (Table.map_get?_rows_update workflowFormat id key (fun w => ((), w.afterRun now vars))
      Workflow.runCount (· + 1) (fun _ => rfl) s.workflows s.storage).trans ?_
    by_cases hkey : id = key
    · rw [if_pos hkey, if_pos (congrArg Subject.workflow hkey.symm)]
      rfl
    · rw [if_neg hkey, if_neg fun h => hkey (Subject.workflow.inj h).symm]
      rfl

variable {s subject} {s' : State η} {owner : Subject}

/-- A count that has room adds one to what it counts. -/
theorem runs_eq_of_runs? (hfull : ¬ s.Full owner) (h : s'.runs? subject =
    if subject = owner then (s.runs? subject).map (· + 1) else s.runs? subject) :
    s'.runs subject = s.runs subject +
      if subject = owner ∧ (s.runs? subject).isSome then 1 else 0 := by
  rw [State.runs, State.runs, h]
  by_cases hsubject : subject = owner
  · subst hsubject
    cases hruns : s.runs? subject with
    | none => simp
    | some count =>
      have hroom : count.toNat ≠ 2 ^ 64 - 1 := fun he =>
        hfull (hruns.trans (congrArg some (UInt64.toNat.inj he)))
      have hsum := UInt64.toNat_add count 1
      have hone : (1 : UInt64).toNat = 1 := rfl
      have hlt := count.toNat_lt
      simp only [Option.map_some, Option.getD_some, Option.isSome_some, and_self, if_true]
      omega
  · simp [hsubject]

variable (s subject)

theorem runs_countScript : (countScript id now s).runs subject = s.runs subject +
    if subject = .script id ∧ ¬ s.Full (.script id) ∧ (s.runs? subject).isSome then 1 else 0 := by
  by_cases hfull : s.Full (.script id)
  · simp [countScript, hfull]
  · rw [countScript, if_neg hfull, runs_eq_of_runs? hfull (runs?_addScriptRun id now s subject)]
    simp [hfull]

theorem runs_countWorkflow (vars : Variables) :
    (countWorkflow id now vars s).runs subject = s.runs subject +
      if subject = .workflow id ∧ ¬ s.Full (.workflow id) ∧ (s.runs? subject).isSome
      then 1 else 0 := by
  by_cases hfull : s.Full (.workflow id)
  · simp [countWorkflow, hfull]
  · rw [countWorkflow, if_neg hfull,
      runs_eq_of_runs? hfull (runs?_addWorkflowRun id now s subject vars)]
    simp [hfull]

end Runs

/-- A commit that crashes in some states, and always with the same message. -/
theorem atomicallyOrCrash_eq {σ : Type} {step : σ → Except String (α × σ)} (full : σ → Prop)
    [DecidablePred full] (done : σ → α × σ) {message : String}
    (h : ∀ s, step s = if full s then .error message else .ok (done s)) :
    Routine.atomicallyOrCrash step =
      .commit (fun s => if full s then s else (done s).2) fun s =>
        if full s then .crash message else .done (done s).1 := by
  refine congrArg₂ Routine.commit (funext fun s => ?_) (funext fun s => ?_)
  · rw [h]
    by_cases hs : full s <;> simp [hs]
  · rw [h]
    by_cases hs : full s <;> simp [hs]

/-- The count of a run of a script is one commit, and a crash if the counter is full. -/
theorem run_recordScriptRun (id : Uuid) (now : Instant) :
    (recordScriptRun id now : Operation η Unit).run = .commit (countScript id now) fun s =>
      if s.Full (.script id) then .crash Counter.overflow
      else .done ((addScriptRun id now s).1.mapError (.ofStorage (.scriptNotFound id))) := by
  refine atomicallyOrCrash_eq (fun s : State η => s.Full (.script id)) (fun s =>
    ((addScriptRun id now s).1.mapError _, (addScriptRun id now s).2)) fun s => ?_
  rw [Table.updateOrCrash_eq fun script => script.recordRun_eq now]
  by_cases hfull : s.Full (.script id)
  · have hcount : (s.scripts.rows.get? id).map Script.runCount = some Counter.largest := hfull
    rw [if_pos hfull, if_pos hcount]
    rfl
  · have hcount : (s.scripts.rows.get? id).map Script.runCount ≠ some Counter.largest := hfull
    rw [if_neg hfull, if_neg hcount]
    rfl

/-- The count of a run of a workflow is one commit, and a crash if the counter is full. -/
theorem run_recordWorkflowRun (id : Uuid) (now : Instant) (vars : Variables) :
    (recordWorkflowRun id now vars : Operation η Unit).run =
      .commit (countWorkflow id now vars) fun s =>
        if s.Full (.workflow id) then .crash Counter.overflow
        else .done ((addWorkflowRun id now vars s).1.mapError
          (.ofStorage (.workflowNotFound id))) := by
  refine atomicallyOrCrash_eq (fun s : State η => s.Full (.workflow id)) (fun s =>
    ((addWorkflowRun id now vars s).1.mapError _, (addWorkflowRun id now vars s).2)) fun s => ?_
  rw [Table.updateOrCrash_eq fun w => w.recordRun_eq now vars]
  by_cases hfull : s.Full (.workflow id)
  · have hcount : (s.workflows.rows.get? id).map Workflow.runCount = some Counter.largest := hfull
    rw [if_pos hfull, if_pos hcount]
    rfl
  · have hcount : (s.workflows.rows.get? id).map Workflow.runCount ≠ some Counter.largest := hfull
    rw [if_neg hfull, if_neg hcount]
    rfl

/-- The last step of a call that runs a workflow: the execution moves to the history and is
returned. -/
def archiving (limit : Nat) (e : Execution) :
    Routine (State η) (Except EngineError Execution) := do
  archiveExecution limit e
  return .ok e

/-- The clock is read, the run is counted, and the execution moves to the history. A crash of the
count comes before that. -/
theorem conclude_eq (engine : Engine η) (id : Uuid) (result : Execution × Variables) :
    engine.conclude id result = .commit (fun t => t.now.2) fun t =>
      .commit (countWorkflow id t.now.1 result.2) fun s =>
        if s.Full (.workflow id) then .crash Counter.overflow
        else archiving engine.historyLimit result.1 := by
  refine congrArg (Routine.commit _) (funext fun t => ?_)
  show ((recordWorkflowRun id t.now.1 result.2).run.bind fun _ => Routine.done ()).bind _ = _
  rw [run_recordWorkflowRun]
  refine congrArg (Routine.commit _) (funext fun s => ?_)
  dsimp only
  split
  · rfl
  · rfl

/-- Changes of the world are of a kind. -/
def CoversWorld (kind : (State η → State η) → Prop) : Prop :=
  ∀ world : State η → World η, kind fun s => s.withWorld (world s)

/-- Changes of the world and of the executions are of a kind. -/
def CoversLog (kind : (State η → State η) → Prop) : Prop :=
  ∀ (world : State η → World η) (executions : State η → ExecutionLog),
    kind fun s => { s with world := world s, executions := executions s }

section Commits

variable {kind : (State η → State η) → Prop}

theorem CoversLog.world (h : CoversLog kind) : CoversWorld kind :=
  fun world => h world State.executions

theorem commits_bind {p : Operation η α} {f : α → Operation η β} (h : Commits kind p.run)
    (hf : ∀ a, Commits kind (f a).run) : Commits kind (p >>= f).run := by
  refine Commits.bind h fun result => ?_
  cases result with
  | ok a => exact hf a
  | error e => exact .done _

theorem commits_onWorld (h : CoversWorld kind) (p : Routine (World η) α) :
    Commits kind (onWorld p) :=
  commits_within (fun update => h fun s => update s.world) p

theorem commits_read (h : CoversWorld kind) (view : State η → α) :
    Commits kind (Routine.read view) :=
  .commit (h State.world) fun _ => .done _

theorem commits_now (h : CoversWorld kind) :
    Commits kind (Routine.atomically State.now : Routine (State η) Instant) :=
  .commit (h fun s => s.world.now.2) fun _ => .done _

theorem commits_takeTask (h : CoversWorld kind) :
    Commits kind (Routine.atomically State.takeTask : Routine (State η) Nat) :=
  .commit (h fun s => s.world.takeTask.2) fun _ => .done _

section Scripts

variable (h : CoversWorld kind) (engine : Engine η) (id : Uuid) (context : Context)
include h

theorem commits_interpret (rule : Rule) : Commits kind (engine.interpret rule context) := by
  refine (commits_onWorld h _).guarded.bind fun result => ?_
  cases result with
  | ok outcome => exact .done _
  | error message => exact (commits_takeTask h).bind fun _ => .done _

theorem commits_runRules (index : Nat) (rules : List Rule) :
    Commits kind (engine.runRules id context index rules) := by
  induction rules generalizing index with
  | nil => exact .done _
  | cons rule rest ih =>
    refine (commits_interpret h engine context rule).bind fun outcome => ?_
    split
    · exact (ih (index + 1)).bind fun _ => .done _
    · exact .done _

variable (hcount : ∀ now, kind (countScript id now))
include hcount

omit engine context in
theorem commits_recordScriptRunNow :
    Commits kind (recordScriptRunNow id : Operation η Unit).run := by
  refine commits_bind ((commits_now h).bind fun _ => .done _) fun now => ?_
  rw [run_recordScriptRun]
  refine .commit (hcount now) fun s => ?_
  split
  · exact .crash _
  · exact .done _

theorem commits_runScript : Commits kind (engine.runScript id context).run := by
  refine commits_bind (commits_read h _) fun script => ?_
  cases script.program with
  | error cause => exact .done _
  | ok program =>
    refine commits_bind ((commits_runRules h engine id context 0 program.rules).bind
      fun _ => .done _) fun runs => ?_
    exact commits_bind (commits_recordScriptRunNow h id hcount) fun _ => .done _

theorem commits_runRule (index : Nat) (rule : Rule) :
    Commits kind (engine.runRule id index rule context) :=
  (commits_interpret h engine context rule).bind fun _ =>
    ((commits_recordScriptRunNow h id hcount).bind fun _ => .done _).bind fun _ => .done _

theorem commits_superviseRule (index : Nat) (rule : Rule) :
    Commits kind (engine.superviseRule id index rule context) := by
  refine (commits_runRule h engine id context hcount index rule).guarded.bind fun result => ?_
  cases result with
  | ok run => exact .done _
  | error message =>
    exact (commits_takeTask h).bind fun task =>
      ((commits_recordScriptRunNow h id hcount).bind fun _ => .done _).bind fun _ => .done _

end Scripts

section Workflows

variable (engine : Engine η) (id : Uuid) (context : Context)

theorem commits_runToEnd (h : CoversWorld kind) (w : Workflow) (started : Execution) :
    Commits kind (engine.runToEnd w started context) := by
  refine (commits_onWorld h _).guarded.bind fun result => ?_
  cases result with
  | ok result => exact .done _
  | error message => exact .commit (h fun s => s.world.takeTask.2.now.2.now.2) fun _ => .done _

variable (h : CoversLog kind) (hcount : ∀ now vars, kind (countWorkflow id now vars))
include h hcount

omit hcount context id engine in
theorem commits_beginExecution (workflowId : Uuid) :
    Commits kind (beginExecution workflowId : Routine (State η) Execution) :=
  .commit (h (fun s => s.world.takeId.2.now.2) fun s =>
    s.executions.begin (Execution.start s.world.takeId.1 workflowId s.world.takeId.2.now.1))
    fun _ => .done _

omit context in
theorem commits_conclude (result : Execution × Variables) :
    Commits kind (engine.conclude id result) := by
  rw [conclude_eq]
  refine .commit (h.world fun s => s.world.now.2) fun t => .commit (hcount t.now.1 result.2)
    fun s => ?_
  split
  · exact .crash _
  · exact .commit (h State.world fun s => s.executions.finish result.1 engine.historyLimit)
      fun _ => .done _

theorem commits_executeWorkflow : Commits kind (engine.executeWorkflow id context).run := by
  rw [run_executeWorkflow]
  refine .commit (h State.world State.executions) fun s => ?_
  cases s.workflows.get id with
  | error e => exact .done _
  | ok w =>
    refine (commits_beginExecution h w.id).bind fun started => ?_
    exact (commits_runToEnd engine context h.world w started).bind
      (commits_conclude engine id h hcount)

theorem commits_runWorkflow : Commits kind (engine.runWorkflow id context) := by
  refine (commits_executeWorkflow engine id context h hcount).guarded.bind fun result => ?_
  cases result with
  | error message => exact .done _
  | ok answer => cases answer <;> exact .done _

end Workflows

end Commits

end Engine
end Automation
