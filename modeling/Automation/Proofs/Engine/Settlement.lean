import Automation.Proofs.Engine.Ledger

/-!
# What calls that have ended have entered

A call that sets variables enters what it was asked for. A run enters that it was counted: that of a
workflow once, with the variables that it found at its first look and what it has set on top of
them; that of a script once if the script compiled at the first look; that of a rule once. This is
so however the run ended and whatever others did meanwhile. Only a run that finds the counter full
enters nothing, and does not finish.
-/
namespace Automation.Engine

open Routine

variable {η α : Type}

/-- The worlds that steps found and left. -/
def worlds (steps : List (State η × State η)) : List (World η × World η) :=
  steps.map (Prod.map State.world State.world)

/-- How a run of a workflow ended, and what it leaves as set: all that it has set, or nothing if it
died. -/
inductive Completes (engine : Engine η) (w : Workflow) (context : Context)
    (steps : List (World η × World η)) : List (String × Json) → Prop where
  | ran {started e : Execution} {vars : Variables} {writes : List (String × Json)}
      (h : Ends (engine.runner.run w started context) steps (.ok (e, vars)))
      (hw : engine.runner.Writes w context steps writes) : Completes engine w context steps writes
  | died {started : Execution} {message : String}
      (h : Ends (engine.runner.run w started context) steps (.error message)) :
      Completes engine w context steps []

/-- A step that leaves all tallies alone. -/
def Untouched (step : State η × State η) : Prop :=
  ∀ subject, step.2.tally? subject = step.1.tally? subject

section Untouched

variable {engine : Engine η} {id : Uuid} {context : Context} {p : Routine (State η) α}
  {steps before after : List (State η × State η)} {outcome : Except String α}

theorem coversLog_untouched : CoversLog fun u : State η → State η => ∀ s, Untouched (s, u s) :=
  fun _ _ _ _ => rfl

theorem untouched_of_commits (h : Commits (fun u => ∀ s, Untouched (s, u s)) p)
    (he : Ends p steps outcome) : ∀ step ∈ steps, Untouched step := by
  have hmoves : Moves (fun s s' => Untouched (s, s')) p := h.moves (fun _ hu => hu) fun _ _ => rfl
  exact hmoves.ends he

/-- If only one of the steps touches a tally, what that one counts is all that is counted. -/
theorem flatMap_counted {s s' : State η} {owner : Subject} {entry : Tally → Entry}
    {counted : List Entry} (h : s.counted s' owner entry = counted)
    (hb : ∀ step ∈ before, Untouched step) (ha : ∀ step ∈ after, Untouched step) :
    ((before ++ (s, s') :: after).flatMap fun step => step.1.counted step.2 owner entry) =
      counted := by
  have hnone : ∀ {steps : List (State η × State η)}, (∀ step ∈ steps, Untouched step) →
      (steps.flatMap fun step => step.1.counted step.2 owner entry) = [] := fun h =>
    List.flatMap_eq_nil_iff.mpr fun step hstep => counted_of_eq entry (h step hstep owner)
  rw [List.flatMap_append, List.flatMap_cons, hnone hb, hnone ha, h, List.nil_append,
    List.append_nil]

end Untouched

section Workflows

variable {engine : Engine η} {id : Uuid} {context : Context} {steps : List (State η × State η)}

/-- A run always leaves an execution, also when it dies. -/
theorem ok_of_ends_runToEnd {w : Workflow} {started : Execution}
    {outcome : Except String (Execution × Variables)}
    (h : Ends (engine.runToEnd w started context) steps outcome) :
    ∃ result, outcome = .ok result := by
  rcases ends_bind h with ⟨message, hguarded, -⟩ | ⟨result, before, after, -, hlater, -⟩
  · obtain ⟨_, he, -⟩ := ends_guarded hguarded
    cases he
  · cases result with
    | ok result =>
      cases hlater with
      | done => exact ⟨result, rfl⟩
    | error reason =>
      cases hlater with
      | commit _ hlater =>
        cases hlater with
        | done => exact ⟨_, rfl⟩

/-- The clock is read, the run is counted, and the execution moves to the history; or the counter is
full, and the call crashes. -/
theorem ends_conclude {result : Execution × Variables}
    {outcome : Except String (Except EngineError Execution)}
    (h : Ends (engine.conclude id result) steps outcome) :
    ∃ t u, (∃ v, outcome = .ok (.ok result.1) ∧ ¬ u.Full (.workflow id) ∧
        steps = [(t, t.now.2), (u, countWorkflow id t.now.1 result.2 u),
          (v, { v with executions := v.executions.finish result.1 engine.historyLimit })]) ∨
      outcome = .error Counter.overflow ∧ u.Full (.workflow id) ∧
        steps = [(t, t.now.2), (u, u)] := by
  rw [conclude_eq] at h
  cases h with
  | commit t h =>
    cases h with
    | commit u h =>
      dsimp only at h
      refine ⟨t, u, ?_⟩
      by_cases hfull : u.Full (.workflow id)
      · rw [if_pos hfull] at h
        cases h with
        | crash =>
          refine Or.inr ⟨rfl, hfull, ?_⟩
          rw [countWorkflow, if_pos hfull]
      · rw [if_neg hfull] at h
        cases h with
        | commit v h =>
          cases h with
          | done => exact Or.inl ⟨v, rfl, hfull, rfl⟩

/-- What a call that runs a workflow can come to by its steps. -/
inductive ExecutionAnswer (engine : Engine η) (id : Uuid) (context : Context) :
    List (State η × State η) → Except String (Except EngineError Execution) → Prop where
  | missing {s : State η} (h : s.workflows.rows.get? id = none) :
      ExecutionAnswer engine id context [(s, s)] (.ok (.error (.workflowNotFound id)))
  /-- The run starts from the workflow as it was at the first look, and is counted at the end. -/
  | ran {s u : State η} {w : Workflow} {started : Execution} {result : Execution × Variables}
      {now : Instant} {begun run ended last : List (State η × State η)}
      (h : s.workflows.rows.get? id = some w)
      (hrun : Ends (engine.runToEnd w started context) run (.ok result))
      (hbefore : ∀ step ∈ begun ++ run ++ ended, Untouched step)
      (hroom : ¬ u.Full (.workflow id)) (hlast : ∀ step ∈ last, Untouched step) :
      ExecutionAnswer engine id context
        ((s, s) :: (begun ++ (run ++ (ended ++ (u, countWorkflow id now result.2 u) :: last))))
        (.ok (.ok result.1))
  /-- The run has come to its end, but cannot be counted. -/
  | uncounted {s u : State η} {w : Workflow} {run : List (State η × State η)}
      (h : s.workflows.rows.get? id = some w) (hrun : ∀ step ∈ run, Untouched step)
      (hfull : u.Full (.workflow id)) :
      ExecutionAnswer engine id context ((s, s) :: (run ++ [(u, u)])) (.error Counter.overflow)

/-- A call that runs a workflow returns an execution if there is such a workflow, unless no more
runs of it can be counted. -/
theorem executeWorkflow_answers {outcome : Except String (Except EngineError Execution)}
    (h : Ends (engine.executeWorkflow id context).run steps outcome) :
    ExecutionAnswer engine id context steps outcome := by
  rw [run_executeWorkflow] at h
  cases h with
  | commit s h =>
    cases hrow : s.workflows.rows.get? id with
    | none =>
      simp only [Table.get, hrow] at h
      cases h with
      | done => exact .missing hrow
    | some w =>
      simp only [Table.get, hrow] at h
      rcases ends_bind h with ⟨message, hbegin, -⟩ | ⟨started, begun, after, hbegin, hrest, rfl⟩
      · cases hbegin with
        | commit _ hbegin => cases hbegin
      rcases ends_bind hrest with ⟨message, hrun, -⟩ | ⟨result, run, last, hrun, hlast, rfl⟩
      · obtain ⟨_, he⟩ := ok_of_ends_runToEnd hrun
        cases he
      have hbegun := untouched_of_commits
        (commits_beginExecution coversLog_untouched w.id) hbegin
      have hown := untouched_of_commits
        (commits_runToEnd engine context coversLog_untouched.world w started) hrun
      have hbefore : ∀ t : State η, ∀ step ∈ begun ++ run ++ [(t, t.now.2)], Untouched step := by
        intro t
        simp only [List.forall_mem_append]
        exact ⟨⟨hbegun, hown⟩, List.forall_mem_singleton.mpr fun _ => rfl⟩
      obtain ⟨t, u, ⟨v, rfl, hroom, rfl⟩ | ⟨rfl, hfull, rfl⟩⟩ := ends_conclude hlast
      · exact .ran hrow hrun (hbefore t) hroom (List.forall_mem_singleton.mpr fun _ => rfl)
      · have hsteps : begun ++ (run ++ [(t, t.now.2), (u, u)]) =
            begun ++ run ++ [(t, t.now.2)] ++ [(u, u)] := by simp
        rw [hsteps]
        exact .uncounted hrow (hbefore t) hfull

end Workflows

section Scripts

variable {engine : Engine η} {id : Uuid} {context : Context} {steps : List (State η × State η)}

end Scripts

namespace Request

/-- What a request enters in the books by its steps. -/
def entries (r : Request) (steps : List (State η × State η)) : List Entry :=
  steps.flatMap fun step => r.enters step.1 step.2

/-- The script or workflow that a request may enter something about. -/
def subject? : Request → Option Subject
  | runScript id _ | runRule id _ _ _ => some (.script id)
  | updateWorkflow id _ | setVariable id _ _ | executeWorkflow id _ | runWorkflow id _ =>
    some (.workflow id)
  | _ => none

/-- A request that runs a workflow, and how it ends if the run cannot be counted. -/
inductive Executes (id : Uuid) (context : Context) : Request → Except String Bool → Prop where
  | call : Executes id context (.executeWorkflow id context) (.error Counter.overflow)
  | task : Executes id context (.runWorkflow id context) (.ok false)

/-- A run that cannot be counted does not end well. -/
theorem Executes.lost_ne {id : Uuid} {context : Context} {r : Request} {lost : Except String Bool}
    (h : r.Executes id context lost) : lost.toOption.getD false = false := by
  cases h with
  | call => rfl
  | task => rfl

end Request

/-- What a call that has ended has entered, by what it was asked, its steps, and how it ended. -/
inductive Settled (engine : Engine η) :
    Request → List (State η × State η) → Except String Bool → List Entry → Prop where
  | set {id : Uuid} {name : String} {value : Json} {steps : List (State η × State η)} (ok : Bool) :
      Settled engine (.setVariable id name value) steps (.ok ok) [.set id name value]
  | updated {id : Uuid} {patch : Workflow.Patch} {steps : List (State η × State η)} (ok : Bool) :
      Settled engine (.updateWorkflow id patch) steps (.ok ok)
        (patch.vars.map (.replaced id)).toList
  /-- The run was on the workflow as the first step found it. -/
  | completed {id : Uuid} {context : Context} {r : Request} {lost : Except String Bool}
      {s : State η} {w : Workflow} {writes : List (String × Json)}
      {begun own last : List (State η × State η)} (hr : r.Executes id context lost)
      (h : s.workflows.rows.get? id = some w)
      (hrun : Completes engine w context (worlds own) writes) :
      Settled engine r ((s, s) :: (begun ++ (own ++ last))) (.ok true)
        [.completed id (w.vars.overlaid writes)]
  /-- No more runs of the workflow can be counted: the execution does not finish. -/
  | uncounted {id : Uuid} {context : Context} {r : Request} {lost : Except String Bool}
      {steps : List (State η × State η)} (hr : r.Executes id context lost)
      (hfull : ∃ step ∈ steps, step.1.Full (.workflow id)) : Settled engine r steps lost []
  | uncompiled {id : Uuid} {context : Context} {s : State η} {script : Script} {cause : SyntaxError}
      (h : s.scripts.rows.get? id = some script) (hp : script.program = .error cause) :
      Settled engine (.runScript id context) [(s, s)] (.ok false) []
  /-- The rules were those of the script as the first step found it. -/
  | ran {id : Uuid} {context : Context} {s : State η} {script : Script} {program : Program}
      {runs : List ScriptRun} {own last : List (State η × State η)}
      (h : s.scripts.rows.get? id = some script) (hp : script.program = .ok program)
      (hrun : Ends (engine.runRules id context 0 program.rules) own (.ok runs)) (ok : Bool) :
      Settled engine (.runScript id context) ((s, s) :: (own ++ last)) (.ok ok) [.ran id]
  | fired {id : Uuid} {index : Nat} {rule : Rule} {context : Context} {result : Rule.Outcome}
      {own last : List (State η × State η)}
      (hrun : Ends (engine.interpret rule context) own (.ok result)) :
      Settled engine (.runRule id index rule context) (own ++ last) (.ok true) [.ran id]

/-- Nothing takes a count back while a call is under way. -/
def Climbing (subject : Subject) (steps : List (State η × State η)) : Prop :=
  steps.Pairwise fun step later => step.1.runs subject ≤ later.1.runs subject

theorem ends_succeeds {p : Operation η α} {steps : List (State η × State η)}
    {outcome : Except String Bool} (h : Ends (succeeds p) steps outcome) :
    ∃ result, Ends p.run steps result ∧ outcome = result.map Except.toBool := by
  rcases ends_bind h with ⟨message, hp, rfl⟩ | ⟨result, before, after, hp, hdone, rfl⟩
  · exact ⟨.error message, hp, rfl⟩
  · cases hdone with
    | done =>
      rw [List.append_nil]
      exact ⟨.ok result, hp, rfl⟩

theorem ends_answers {task : Routine (State η) Result} {steps : List (State η × State η)}
    {outcome : Except String Bool} (h : Ends (answers task) steps outcome) :
    ∃ result, Ends task steps result ∧ outcome = result.map Result.ran := by
  rcases ends_bind h with ⟨message, hp, rfl⟩ | ⟨result, before, after, hp, hdone, rfl⟩
  · exact ⟨.error message, hp, rfl⟩
  · cases hdone with
    | done =>
      rw [List.append_nil]
      exact ⟨.ok result, hp, rfl⟩

section Ended

variable {engine : Engine η} {id : Uuid} {context : Context} {steps : List (State η × State η)}
  {outcome : Except String Bool}

/-- The task of a workflow takes the steps of the call, and ends with an execution or with
nothing. -/
theorem ends_runWorkflow {outcome : Except String Result}
    (h : Ends (engine.runWorkflow id context) steps outcome) :
    ∃ result, Ends (engine.executeWorkflow id context).run steps result ∧
      ((∃ e, result = .ok (.ok e) ∧ outcome = .ok (.workflow e)) ∨
        (∀ e, result ≠ .ok (.ok e)) ∧ outcome = .ok .nothing) := by
  rcases ends_bind h with ⟨message, hp, -⟩ | ⟨result, before, after, hp, hlast, rfl⟩
  · obtain ⟨_, he, -⟩ := ends_guarded hp
    cases he
  obtain ⟨_, he, hcall⟩ := ends_guarded hp
  obtain rfl := Except.ok.inj he
  match result with
  | .ok (.ok e) =>
    cases hlast with
    | done =>
      rw [List.append_nil]
      exact ⟨.ok (.ok e), hcall, Or.inl ⟨e, rfl, rfl⟩⟩
  | .ok (.error cause) =>
    cases hlast with
    | done =>
      rw [List.append_nil]
      exact ⟨.ok (.error cause), hcall, Or.inr ⟨nofun, rfl⟩⟩
  | .error message =>
    cases hlast with
    | done =>
      rw [List.append_nil]
      exact ⟨.error message, hcall, Or.inr ⟨nofun, rfl⟩⟩

/-- A request that runs a workflow ends as the call does, and with nothing if that crashes. -/
theorem ends_executes {r : Request} {lost : Except String Bool} (hr : r.Executes id context lost)
    (h : Ends (r.run engine) steps outcome) :
    ∃ result, Ends (engine.executeWorkflow id context).run steps result ∧
      (∀ e, result = .ok (.ok e) → outcome = .ok true) ∧
      (result = .error Counter.overflow → outcome = lost) := by
  cases hr with
  | call =>
    obtain ⟨result, hp, rfl⟩ := ends_succeeds h
    exact ⟨result, hp, fun e he => he ▸ rfl, fun he => he ▸ rfl⟩
  | task =>
    obtain ⟨_, hrun, rfl⟩ := ends_answers h
    obtain ⟨result, hcall, ⟨e, rfl, rfl⟩ | ⟨hne, rfl⟩⟩ := ends_runWorkflow hrun
    · exact ⟨_, hcall, fun _ _ => rfl, nofun⟩
    · exact ⟨_, hcall, fun e he => absurd he (hne e), fun _ => rfl⟩

/-- What is entered by a request that runs a workflow is what is counted. -/
theorem Request.Executes.entries_eq {r : Request} {lost : Except String Bool}
    (hr : r.Executes id context lost) (steps : List (State η × State η)) :
    r.entries steps = steps.flatMap fun step =>
      step.1.counted step.2 (.workflow id) fun after => .completed id after.vars := by
  cases hr with
  | call => rfl
  | task => rfl

end Ended

end Automation.Engine
