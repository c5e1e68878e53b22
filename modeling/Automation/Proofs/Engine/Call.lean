import Automation.Engine.Workflows
import Automation.Proofs.Routine.Course

/-!
# Calls that run a workflow

What a call that runs a workflow does, step by step, whatever others do to the state between its
steps. The run itself touches only the world and what it has of its own. However it ends, it leaves
an execution that has the identifier of the one that was begun and is over.
-/
namespace Automation

namespace Workflow.Runner

open Routine

variable {η : Type}

/-- Which execution it is, and of which workflow. -/
def origin (e : Execution) : Uuid × Uuid := (e.id, e.workflowId)

/-- An execution as its run leaves it. -/
structure Concludes (started e : Execution) : Prop where
  origin : origin e = origin started
  status : e.status = .completed ∨ e.status = .failed
  endTime : e.endTime.isSome

theorem isPart_vars : IsPart Notes.vars fun (notes : Notes) vars => { notes with vars } :=
  ⟨fun _ _ => rfl, fun _ => rfl, fun _ _ _ => rfl⟩

section Origin

variable {whose : Uuid × Uuid} {notes : Notes}

theorem leaves_stamp {change : Execution → Instant → Execution}
    (h : ∀ e now, origin (change e now) = origin e) (hn : origin notes.execution = whose) :
    Leaves (stamp change : Routine (Desk η) Unit) notes
      fun _ left => origin left.execution = whose := by
  apply leaves_modify
  intro world
  exact (h _ _).trans hn

theorem leaves_log {level : Execution.Level} {nodeId : Option String} {message : String}
    (hn : origin notes.execution = whose) :
    Leaves (log level nodeId message : Routine (Desk η) Unit) notes fun _ left =>
      origin left.execution = whose :=
  leaves_stamp (fun _ _ => rfl) hn

/-- A behaviour has no access to the execution. -/
theorem leaves_scope {α : Type} (p : Routine (Scope η) α) (hn : origin notes.execution = whose) :
    Leaves (p.within Desk.scope Desk.withScope) notes fun _ left => origin left.execution = whose :=
  leaves_within isPart_vars fun _ _ => hn

theorem leaves_runNode (runner : Runner η) (context : Context) (node : Node)
    (hn : origin notes.execution = whose) :
    Leaves (runner.runNode context node) notes fun _ left => origin left.execution = whose := by
  refine (leaves_log hn).bind fun _ notes hn => ?_
  cases hb : runner.behaviors.get? node.templateId with
  | none => exact (leaves_log hn).bind fun _ notes hn => leaves_pure hn
  | some behavior =>
    refine (leaves_scope _ hn).bind fun result notes hn => ?_
    cases result with
    | ok output =>
      have hset : Leaves (Routine.modify (Desk.setResult node.id output) : Routine (Desk η) Unit)
          notes fun _ left => origin left.execution = whose := leaves_modify fun _ => hn
      exact hset.bind fun _ notes hn => leaves_pure hn
    | error failure => exact (leaves_log hn).bind fun _ notes hn => leaves_pure hn

theorem leaves_runNodes (runner : Runner η) (context : Context) (nodes : List Node)
    (hn : origin notes.execution = whose) :
    Leaves (runner.runNodes context nodes) notes fun _ left => origin left.execution = whose := by
  induction nodes generalizing notes with
  | nil => exact leaves_pure hn
  | cons node rest ih =>
    rw [runNodes]
    split
    · refine (leaves_runNode runner context node hn).bind fun failure notes hn => ?_
      cases failure with
      | none => exact ih hn
      | some failure => exact leaves_pure hn
    · exact ih hn

end Origin

theorem leaves_end {notes : Notes} {started : Execution} {change : Execution → Instant → Execution}
    (h : ∀ e now, origin e = origin started → Concludes started (change e now))
    (hn : origin notes.execution = origin started) :
    Leaves (stamp change : Routine (Desk η) Unit) notes fun _ left =>
      Concludes started left.execution :=
  leaves_modify fun _ => h _ _ hn

theorem leaves_runOnDesk (runner : Runner η) (w : Workflow) (context : Context) (notes : Notes) :
    Leaves (runner.runOnDesk w context) notes fun _ left =>
      Concludes notes.execution left.execution := by
  have hcomplete : ∀ (e : Execution) now, origin e = origin notes.execution →
      Concludes notes.execution (e.complete now) := fun e now h => ⟨h, Or.inl rfl, rfl⟩
  have hfail : ∀ message (e : Execution) now, origin e = origin notes.execution →
      Concludes notes.execution (e.fail now message) := fun message e now h => ⟨h, Or.inr rfl, rfl⟩
  unfold runOnDesk
  cases runner.orderedNodes w with
  | error e => exact (leaves_log rfl).bind fun _ left hn => leaves_end (hfail _) hn
  | ok nodes =>
    refine (leaves_runNodes runner context nodes rfl).bind fun failure left hn => ?_
    cases failure with
    | none => exact leaves_end hcomplete hn
    | some failure => exact leaves_end (hfail _) hn

/-- A run that does not crash concludes the execution that it was given. -/
theorem concludes_run {runner : Runner η} {w : Workflow} {started : Execution} {context : Context}
    {pauses : List Duration} {result : Execution × Variables}
    (h : Course (runner.run w started context) pauses (.ok result)) :
    Concludes started result.1 := by
  rcases course_bind h with ⟨message, -, he⟩ | ⟨⟨_, notes⟩, before, after, hp, hlater, -⟩
  · cases he
  · cases hlater with
    | done => exact leaves_runOnDesk runner w context ⟨w.vars, started⟩ before () notes hp

theorem Concludes.id {started e : Execution} (h : Concludes started e) : e.id = started.id :=
  congrArg Prod.fst h.origin

theorem Concludes.workflowId {started e : Execution} (h : Concludes started e) :
    e.workflowId = started.workflowId :=
  congrArg Prod.snd h.origin

end Workflow.Runner

namespace Engine

open Routine Workflow.Runner

variable {η α : Type}

/-- A commit that leaves the executions alone. -/
def Keeps (update : State η → State η) : Prop := ∀ s, (update s).executions = s.executions

/-- However a run ends, there is an execution that it concludes. -/
theorem concludes_runToEnd {engine : Engine η} {w : Workflow} {started : Execution}
    {context : Context} {pauses : List Duration} {outcome : Except String (Execution × Variables)}
    (h : Course (engine.runToEnd w started context) pauses outcome) :
    ∃ result, outcome = .ok result ∧ Concludes started result.1 := by
  rcases course_bind h with ⟨message, hp, -⟩ | ⟨result, before, after, hp, hlater, -⟩
  · obtain ⟨_, he, -⟩ := course_guarded hp
    cases he
  · obtain ⟨_, he, hrun⟩ := course_guarded hp
    obtain rfl := Except.ok.inj he
    cases result with
    | ok result =>
      cases hlater with
      | done => exact ⟨result, rfl, concludes_run (course_within hrun)⟩
    | error message =>
      cases hlater with
      | commit s hlater =>
        cases hlater with
        | done => exact ⟨_, rfl, rfl, Or.inr rfl, rfl⟩

/-- What a call does once the run is over. -/
def conclude (engine : Engine η) (id : Uuid) (result : Execution × Variables) :
    Routine (State η) (Except EngineError Execution) := do
  let now ← Routine.atomically State.now
  regardless (recordWorkflowRun id now result.2)
  archiveExecution engine.historyLimit result.1
  return .ok result.1

/-- A call, step by step. -/
theorem run_executeWorkflow (engine : Engine η) (id : Uuid) (context : Context) :
    (engine.executeWorkflow id context).run =
      .commit (fun s => s) fun s =>
        match s.workflows.get id with
        | .ok w => do
          let started ← beginExecution w.id
          let result ← engine.runToEnd w started context
          engine.conclude id result
        | .error e => pure (.error (.ofStorage (.workflowNotFound id) e)) := by
  refine congrArg (Routine.commit _) (funext fun s => ?_)
  change ExceptT.bindCont _ ((s.workflows.get id).mapError _) = _
  cases s.workflows.get id with
  | error e => rfl
  | ok w =>
    refine (bind_assoc (beginExecution w.id) _ _).trans ?_
    refine congrArg (Bind.bind _) (funext fun started => ?_)
    refine (bind_assoc (engine.runToEnd w started context) _ _).trans ?_
    refine congrArg (Bind.bind _) (funext fun result => ?_)
    simp only [bind_assoc]
    rfl

end Engine
end Automation
