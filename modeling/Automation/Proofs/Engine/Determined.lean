import Automation.Engine.Events
import Automation.Proofs.Engine.Call
import Automation.Proofs.Routine.Concur
import Mathlib.Data.List.Forall2

/-!
# Runs that do not depend on the others

If the handlers that a rule calls are functions of their arguments, the rule comes to the same
whatever else goes on. If the behaviours of the nodes are functions of their configuration and of
the variables of the run, so does a workflow, but for identifiers and times. The number of a task is
not the run's own either: where a run crashes, what it says is the same but for that number.
-/
namespace Automation

open Routine

variable {η : Type}

/-- The handler of a command, if it has one, is a function of its arguments. -/
def Registry.FunctionalAt (registry : Registry η) (name : String) : Prop :=
  ∀ handler, registry.handlers.get? name = some handler → ∀ args, Determined (handler args)

/-- Every handler is a function of its arguments. -/
def Registry.Functional (registry : Registry η) : Prop := ∀ name, registry.FunctionalAt name

/-- The handlers that the actions of a rule call are functions of their arguments. -/
def Rule.Functional (registry : Registry η) (rule : Rule) : Prop :=
  ∀ action ∈ rule.actions, action.command ≠ Action.waitName →
    registry.FunctionalAt action.command

/-- The behaviour is a function of its configuration and of the variables of the run. -/
def Behavior.Functional (behavior : Behavior η) : Prop :=
  ∀ config vars, Determined ((behavior config).withOwn vars)

/-- The behaviours that the nodes of a workflow have are functions of their arguments. -/
def Workflow.Runner.Functional (runner : Workflow.Runner η) (w : Workflow) : Prop :=
  ∀ node ∈ w.nodes, node.enabled → ∀ behavior,
    runner.behaviors.get? node.templateId = some behavior → behavior.Functional

section Rule

variable {registry : Registry η} (context : Context)

theorem determined_dispatch {name : String} (h : registry.FunctionalAt name) (args : List Json) :
    Determined (registry.dispatch name args) := by
  unfold Registry.dispatch
  cases hget : registry.handlers.get? name with
  | none => exact (concur_modify _ _).andThen fun _ => concur_pure rfl
  | some handler =>
    exact (Concur.within (h handler hget args)).andThen fun _ => concur_pure rfl

theorem determined_perform {command : String}
    (h : command ≠ Action.waitName → registry.FunctionalAt command) (args : List Argument) :
    Determined (Action.perform registry command args) := by
  unfold Action.perform
  split
  · cases Action.waitLength args with
    | error message => exact concur_pure rfl
    | ok length => exact (concur_sleep length).andThen fun _ => concur_pure rfl
  · next hwait => exact (determined_dispatch (h hwait) _).andThen fun _ => concur_pure rfl

theorem determined_runFrom {actions : List Action}
    (h : ∀ action ∈ actions, action.command ≠ Action.waitName →
      registry.FunctionalAt action.command) (outcome : Rule.Outcome) :
    Determined (Rule.runFrom registry context outcome actions) := by
  induction actions generalizing outcome with
  | nil => exact concur_pure rfl
  | cons action rest ih =>
    obtain ⟨hfirst, hrest⟩ := List.forall_mem_cons.mp h
    refine (determined_perform hfirst _).andThen fun result => ?_
    cases result with
    | error message => exact concur_pure rfl
    | ok dispatch =>
      cases dispatch with
      | handled output => exact ih hrest _
      | unknown => exact ih hrest _

end Rule

namespace Execution

/-- What an execution reports, without its identifier and without times. -/
structure Account where
  workflowId : Uuid
  status : Execution.Status
  results : Dict String Json
  error : Option String
  logs : List (Execution.Level × Option String × String)

def account (e : Execution) : Account :=
  ⟨e.workflowId, e.status, e.results, e.error,
    e.logs.map fun entry => (entry.level, entry.nodeId, entry.message)⟩

end Execution

namespace Workflow.Runner

/-- Notes that say the same. -/
structure SameNotes (a b : Notes) : Prop where
  vars : a.vars = b.vars
  account : a.execution.account = b.execution.account

/-- Results that are the same, with notes that say the same. -/
def SameStage {α : Type} (a b : α × Notes) : Prop := a.1 = b.1 ∧ SameNotes a.2 b.2

/-- A part of a run that comes to the same with notes that say the same. -/
def Steady {α : Type} (p : Routine (Desk η) α) : Prop :=
  ∀ a b, SameNotes a b → Concur SameStage (p.withOwn a) (p.withOwn b)

theorem steady_pure {α : Type} (a : α) : Steady (pure a : Routine (Desk η) α) :=
  fun _ _ h => concur_pure ⟨rfl, h⟩

theorem Steady.bind {α β : Type} {p : Routine (Desk η) α} {f : α → Routine (Desk η) β}
    (h : Steady p) (hf : ∀ a, Steady (f a)) : Steady (p >>= f) := by
  intro a b hab
  rw [withOwn_bind, withOwn_bind]
  refine (h a b hab).bind fun x y hxy => ?_
  obtain ⟨value, notes⟩ := x
  obtain ⟨other, others⟩ := y
  obtain ⟨rfl, hn⟩ : value = other ∧ SameNotes notes others := hxy
  exact hf value notes others hn

theorem steady_modify {update : Desk η → Desk η}
    (h : ∀ world other a b, SameNotes a b →
      SameNotes (update (world, a)).2 (update (other, b)).2) :
    Steady (Routine.modify update : Routine (Desk η) Unit) :=
  fun a b hab => concur_commit fun s t => concur_pure ⟨rfl, h s t a b hab⟩

theorem steady_stamp {change : Execution → Instant → Execution}
    (h : ∀ (e f : Execution) now time, e.account = f.account →
      (change e now).account = (change f time).account) :
    Steady (stamp change : Routine (Desk η) Unit) :=
  steady_modify fun _ _ _ _ hab => ⟨hab.vars, h _ _ _ _ hab.account⟩

theorem steady_log (level : Execution.Level) (nodeId : Option String) (message : String) :
    Steady (log level nodeId message : Routine (Desk η) Unit) := by
  apply steady_stamp
  intro e f now time h
  simp only [Execution.account, Execution.Account.mk.injEq] at h
  simp only [Execution.account, Execution.log, List.map_append, h, List.map_cons, List.map_nil]

theorem steady_fail (message : String) :
    Steady (stamp fun e now => e.fail now message : Routine (Desk η) Unit) := by
  apply steady_stamp
  intro e f now time h
  simp only [Execution.account, Execution.Account.mk.injEq] at h
  simp only [Execution.account, Execution.fail, h]

theorem steady_complete : Steady (stamp Execution.complete : Routine (Desk η) Unit) := by
  apply steady_stamp
  intro e f now time h
  simp only [Execution.account, Execution.Account.mk.injEq] at h
  simp only [Execution.account, Execution.complete, h]

/-- Attempts that are functions of the variables, as many as it takes. -/
theorem determined_retrying {policy : RetryPolicy} {nodeId : String}
    {attempt : Routine (Scope η) (Except NodeError Json)}
    (h : ∀ vars, Determined (attempt.withOwn vars)) (left failures : Nat) (vars : Variables) :
    Determined ((retrying policy nodeId attempt left failures).withOwn vars) := by
  induction left generalizing failures vars with
  | zero =>
    rw [retrying, withOwn_bind]
    refine Concur.andThen (h vars) fun ⟨result, vars⟩ => ?_
    match result with
    | .ok output => exact concur_pure rfl
    | .error (.fatal message) => exact concur_pure rfl
    | .error (.retryable message) => exact concur_pure rfl
  | succ left ih =>
    rw [retrying, withOwn_bind]
    refine Concur.andThen (h vars) fun ⟨result, vars⟩ => ?_
    match result with
    | .ok output => exact concur_pure rfl
    | .error (.fatal message) => exact concur_pure rfl
    | .error (.retryable message) =>
      exact concur_pause _ (ih _ vars)

/-- A behaviour on its part of the desk. -/
theorem steady_scope {α : Type} {p : Routine (Scope η) α}
    (h : ∀ vars, Determined (p.withOwn vars)) :
    Steady (p.within Desk.scope Desk.withScope) := by
  intro a b hab
  have hscope : ∀ notes : Notes, (p.within Desk.scope Desk.withScope).withOwn notes =
      p.withOwn notes.vars >>= fun (x, vars) => pure (x, { notes with vars }) :=
    fun notes => withOwn_within isPart_vars notes p
  rw [hscope, hscope, hab.vars]
  exact Concur.andThen (h b.vars) fun ⟨x, vars⟩ => concur_pure ⟨rfl, rfl, hab.account⟩

theorem steady_runNode {runner : Runner η} (context : Context) {node : Node}
    (h : ∀ behavior, runner.behaviors.get? node.templateId = some behavior → behavior.Functional) :
    Steady (runner.runNode context node) := by
  refine (steady_log .info _ _).bind fun _ => ?_
  cases hb : runner.behaviors.get? node.templateId with
  | none => exact (steady_log .info _ _).bind fun _ => steady_pure none
  | some behavior =>
    have hattempts := @determined_retrying η runner.retries node.id _
      (h behavior hb (Placeholder.renderValue context node.config)) runner.retries.maxRetries 0
    refine (steady_scope hattempts).bind fun result => ?_
    cases result with
    | ok output =>
      refine (steady_modify ?_).bind fun _ => steady_pure none
      intro world other a b hab
      refine ⟨hab.vars, ?_⟩
      have haccount := hab.account
      simp only [Execution.account, Execution.Account.mk.injEq] at haccount
      simp only [Execution.account, Desk.setResult, Execution.setResult, haccount]
    | error failure => exact (steady_log .error _ _).bind fun _ => steady_pure (some failure)

theorem steady_runNodes {runner : Runner η} (context : Context) {nodes : List Node}
    (h : ∀ node ∈ nodes, node.enabled → ∀ behavior,
      runner.behaviors.get? node.templateId = some behavior → behavior.Functional) :
    Steady (runner.runNodes context nodes) := by
  induction nodes with
  | nil => exact steady_pure none
  | cons node rest ih =>
    obtain ⟨hnode, hrest⟩ := List.forall_mem_cons.mp h
    rw [runNodes]
    split
    · next henabled =>
      refine (steady_runNode context (hnode henabled)).bind fun failure => ?_
      cases failure with
      | none => exact ih hrest
      | some failure => exact steady_pure (some failure)
    · exact ih hrest

/-- The nodes of a run are nodes of the workflow. -/
theorem mem_of_orderedNodes {runner : Runner η} {w : Workflow} {nodes : List Node}
    (h : runner.orderedNodes w = .ok nodes) : ∀ node ∈ nodes, node ∈ w.nodes := by
  unfold orderedNodes at h
  cases horder : runner.order with
  | stored =>
    rw [horder] at h
    obtain rfl := Except.ok.inj h
    exact fun _ hn => hn
  | topological =>
    rw [horder] at h
    cases ht : w.topologicalOrder with
    | error e =>
      rw [ht] at h
      cases h
    | ok ids =>
      rw [ht] at h
      obtain rfl := Except.ok.inj h
      intro node hn
      obtain ⟨id, -, hid⟩ := List.mem_filterMap.mp hn
      exact List.mem_of_find?_eq_some hid

theorem steady_runOnDesk {runner : Runner η} {w : Workflow} (h : runner.Functional w)
    (context : Context) : Steady (runner.runOnDesk w context) := by
  unfold runOnDesk
  cases hn : runner.orderedNodes w with
  | error e => exact (steady_log .error _ _).bind fun _ => steady_fail e.message
  | ok nodes =>
    have hnodes := mem_of_orderedNodes hn
    have hall := steady_runNodes context fun node hnode => h node (hnodes node hnode)
    refine hall.bind fun failure => ?_
    cases failure with
    | none => exact steady_complete
    | some failure => exact steady_fail failure.message

/-- Two runs of a workflow that have just started give the same account. -/
theorem concur_run {runner : Runner η} {w : Workflow} (h : runner.Functional w) (context : Context)
    {a b : Execution} (hab : a.account = b.account) :
    Concur (fun x y => x.1.account = y.1.account ∧ x.2 = y.2) (runner.run w a context)
      (runner.run w b context) := by
  refine Concur.bind (steady_runOnDesk h context ⟨w.vars, a⟩ ⟨w.vars, b⟩ ⟨rfl, hab⟩) ?_
  intro x y hxy
  exact concur_pure ⟨hxy.2.account, hxy.2.vars⟩

end Workflow.Runner

namespace Engine

open Workflow.Runner

/-- Texts that say the same, whatever the number of the task that crashed. -/
inductive SameWords (engine : Engine η) : String → String → Prop where
  | same (text : String) : SameWords engine text text
  | crash (lead message : String) (task other : Nat) :
      SameWords engine (lead ++ engine.crashReport task message)
        (lead ++ engine.crashReport other message)

/-- Failures of one action that say the same. -/
structure SameFailure (engine : Engine η) (a b : Rule.Failure) : Prop where
  index : a.index = b.index
  command : a.command = b.command
  message : SameWords engine a.message b.message

/-- Outcomes of a rule that say the same. -/
structure SameOutcomes (engine : Engine η) (a b : Rule.Outcome) : Prop where
  completed : a.completed = b.completed
  unknown : a.unknown = b.unknown
  failure : Option.Rel (SameFailure engine) a.failure b.failure

/-- Log entries that say the same, but for the time. -/
structure SameEntry (engine : Engine η) (a b : Execution.LogEntry) : Prop where
  level : a.level = b.level
  nodeId : a.nodeId = b.nodeId
  message : SameWords engine a.message b.message

/-- Executions that say the same, but for identifiers and times. -/
structure SameExecution (engine : Engine η) (e f : Execution) : Prop where
  workflowId : e.workflowId = f.workflowId
  status : e.status = f.status
  results : e.results = f.results
  error : Option.Rel (SameWords engine) e.error f.error
  logs : List.Forall₂ (SameEntry engine) e.logs f.logs

/-- Results of runs that say the same. -/
inductive Result.Same (engine : Engine η) : Result → Result → Prop where
  | script {id : Uuid} {index : Nat} {a b : Rule.Outcome} (h : SameOutcomes engine a b) :
      Same engine (.script ⟨id, index, a⟩) (.script ⟨id, index, b⟩)
  | workflow {e f : Execution} (h : SameExecution engine e f) :
      Same engine (.workflow e) (.workflow f)
  | nothing : Same engine .nothing .nothing

section Same

variable {engine : Engine η}

theorem SameOutcomes.refl (outcome : Rule.Outcome) : SameOutcomes engine outcome outcome := by
  refine ⟨rfl, rfl, ?_⟩
  cases outcome.failure with
  | none => exact .none
  | some failure => exact .some ⟨rfl, rfl, .same _⟩

/-- Runs of a rule that crashed with one message. -/
theorem sameOutcomes_aborted (message : String) (task other : Nat) :
    SameOutcomes engine (.aborted (engine.crashReport task message))
      (.aborted (engine.crashReport other message)) :=
  ⟨rfl, rfl, .some ⟨rfl, rfl, .crash "run aborted: " message task other⟩⟩

theorem sameEntries_of_account {logs others : List Execution.LogEntry}
    (h : logs.map (fun entry => (entry.level, entry.nodeId, entry.message)) =
      others.map fun entry => (entry.level, entry.nodeId, entry.message)) :
    List.Forall₂ (SameEntry engine) logs others := by
  rw [← List.forall₂_eq_eq_eq, List.forall₂_map_left_iff, List.forall₂_map_right_iff] at h
  refine h.imp fun a b hab => ?_
  obtain ⟨level, nodeId, message⟩ : a.level = b.level ∧ a.nodeId = b.nodeId ∧
      a.message = b.message := by simpa using hab
  exact ⟨level, nodeId, message ▸ .same _⟩

/-- Executions of one account say the same. -/
theorem sameExecution_of_account {e f : Execution} (h : e.account = f.account) :
    SameExecution engine e f := by
  simp only [Execution.account, Execution.Account.mk.injEq] at h
  obtain ⟨hid, hstatus, hresults, herror, hlogs⟩ := h
  refine ⟨hid, hstatus, hresults, ?_, sameEntries_of_account hlogs⟩
  rw [herror]
  cases f.error with
  | none => exact .none
  | some message => exact .some (.same message)

/-- Executions of one account that crashed with one message say the same. -/
theorem sameExecution_aborted {e f : Execution} (h : e.account = f.account) (message : String)
    (task other : Nat) (logged ended logged' ended' : Instant) :
    let reason (task : Nat) := "execution aborted: " ++ engine.crashReport task message
    SameExecution engine ((e.log logged .error none (reason task)).fail ended (reason task))
      ((f.log logged' .error none (reason other)).fail ended' (reason other)) := by
  intro reason
  have hwords : SameWords engine (reason task) (reason other) :=
    .crash "execution aborted: " message task other
  have hsame : SameExecution engine e f := sameExecution_of_account h
  refine ⟨hsame.workflowId, rfl, hsame.results, .some hwords, ?_⟩
  exact List.rel_append hsame.logs (.cons ⟨rfl, rfl, hwords⟩ .nil)

end Same

theorem concur_interpret {engine : Engine η} {rule : Rule} (h : rule.Functional engine.registry)
    (context : Context) :
    Concur (SameOutcomes engine) (engine.interpret rule context)
      (engine.interpret rule context) := by
  have hrun : Determined (rule.run engine.registry context) :=
    determined_runFrom context h Rule.Outcome.none
  have hguarded : Determined (onWorld (rule.run engine.registry context)).guarded :=
    Determined.guarded (Concur.within hrun)
  refine Concur.andThen hguarded fun result => ?_
  cases result with
  | ok outcome => exact concur_pure (.refl outcome)
  | error message => exact concur_commit fun s t => concur_pure (sameOutcomes_aborted message _ _)

theorem concur_runToEnd {engine : Engine η} {w : Workflow} (h : engine.runner.Functional w)
    (context : Context) {a b : Execution} (hab : a.account = b.account) :
    Concur (fun x y => SameExecution engine x.1 y.1) (engine.runToEnd w a context)
      (engine.runToEnd w b context) := by
  have hrun : Concur _ (onWorld (engine.runner.run w a context)).guarded
      (onWorld (engine.runner.run w b context)).guarded :=
    Concur.guarded (Concur.within (concur_run h context hab))
  refine Concur.bind hrun fun x y hxy => ?_
  cases hxy with
  | ok hxy => exact concur_pure (sameExecution_of_account hxy.1)
  | error message =>
    exact concur_commit fun s t => concur_pure (sameExecution_aborted hab message _ _ _ _ _ _)

theorem concur_beginExecution (workflowId : Uuid) :
    Concur (fun e f => e.account = f.account)
      (beginExecution workflowId : Routine (State η) Execution)
      (beginExecution workflowId : Routine (State η) Execution) :=
  concur_commit fun _ _ => concur_pure rfl

theorem course_beginExecution {workflowId : Uuid} {pauses : List Duration}
    {outcome : Except String Execution}
    (h : Course (beginExecution workflowId : Routine (State η) Execution) pauses outcome) :
    ∃ e, outcome = .ok e ∧ e.workflowId = workflowId := by
  cases h with
  | commit s h => cases h with
    | done => exact ⟨_, rfl, rfl⟩

/-- Whatever its commands do, a rule is carried out to an outcome. -/
theorem course_interpret {engine : Engine η} {rule : Rule} {context : Context}
    {pauses : List Duration} {outcome : Except String Rule.Outcome}
    (h : Course (engine.interpret rule context) pauses outcome) :
    ∃ result, outcome = .ok result := by
  rcases course_bind h with ⟨message, hp, -⟩ | ⟨result, before, after, hp, hlater, -⟩
  · obtain ⟨_, he, -⟩ := course_guarded hp
    cases he
  · cases result with
    | ok result => cases hlater with
      | done => exact ⟨_, rfl⟩
    | error message => cases hlater with
      | commit s hlater => cases hlater with
        | done => exact ⟨_, rfl⟩

end Engine
end Automation
