import Automation.Proofs.Engine.Commits
import Automation.Proofs.Routine.Path

/-!
# Calls that run a script

What a call that runs a script comes to, whatever others do to the state between its steps. An error
at the first look means that nothing ran. But the run is counted at the end, and a count that cannot
be kept is an error as well, or a crash if the counter is full; the rules have all had their turn by
then, and what they came to is lost.
-/
namespace Automation.Engine

open Routine

variable {η α : Type}

/-- What a call does once the rules have run. -/
def concludeScript (id : Uuid) (runs : List ScriptRun) :
    Routine (State η) (Except EngineError (List ScriptRun)) :=
  (do
    recordScriptRunNow id
    return runs : Operation η (List ScriptRun)).run

/-- A call, step by step. -/
theorem run_runScript (engine : Engine η) (id : Uuid) (context : Context) :
    (engine.runScript id context).run =
      .commit (fun s => s) fun s =>
        match s.scripts.rows.get? id with
        | none => pure (.error (.scriptNotFound id))
        | some script =>
          match script.program with
          | .error cause => pure (.error (.uncompiled cause))
          | .ok program => engine.runRules id context 0 program.rules >>= concludeScript id := by
  refine congrArg (Routine.commit _) (funext fun s => ?_)
  change ExceptT.bindCont _ ((s.scripts.get id).mapError _) = _
  rw [Table.get]
  cases s.scripts.rows.get? id with
  | none => rfl
  | some script =>
    dsimp only
    cases hprogram : script.program with
    | error cause =>
      simp only [Except.mapError, ExceptT.bindCont, hprogram]
      rfl
    | ok program =>
      simp only [Except.mapError, ExceptT.bindCont, hprogram]
      exact bind_assoc (engine.runRules id context 0 program.rules) _ _

section Rules

variable {engine : Engine η} {id : Uuid} {context : Context} {steps : List (State η × State η)}

theorem ends_interpret {rule : Rule} {outcome : Except String Rule.Outcome}
    (h : Ends (engine.interpret rule context) steps outcome) : ∃ result, outcome = .ok result := by
  rcases ends_bind h with ⟨message, hp, -⟩ | ⟨result, before, after, -, hlater, -⟩
  · obtain ⟨_, he, -⟩ := ends_guarded hp
    cases he
  · cases result with
    | ok result =>
      cases hlater with
      | done => exact ⟨_, rfl⟩
    | error message =>
      cases hlater with
      | commit s hlater =>
        cases hlater with
        | done => exact ⟨_, rfl⟩

/-- The rules run to an end, whatever becomes of their commands. -/
theorem ends_runRules {index : Nat} {rules : List Rule} {outcome : Except String (List ScriptRun)}
    (h : Ends (engine.runRules id context index rules) steps outcome) :
    ∃ runs, outcome = .ok runs := by
  induction rules generalizing index steps outcome with
  | nil =>
    cases h with
    | done => exact ⟨_, rfl⟩
  | cons rule rest ih =>
    rcases ends_bind h with ⟨message, hp, -⟩ | ⟨result, before, after, -, hlater, -⟩
    · obtain ⟨_, he⟩ := ends_interpret hp
      cases he
    · dsimp only at hlater
      split at hlater
      · rcases ends_bind hlater with ⟨message, hp, -⟩ | ⟨runs, before, after, -, hlast, -⟩
        · obtain ⟨_, he⟩ := ih hp
          cases he
        · cases hlast with
          | done => exact ⟨_, rfl⟩
      · cases hlater with
        | done => exact ⟨_, rfl⟩

end Rules

/-- What comes of counting a run of a script at a time, and how the call ends then. -/
inductive Counting (id : Uuid) (time : Instant) (runs : List ScriptRun) (s : State η) :
    State η → Except String (Except EngineError (List ScriptRun)) → Prop where
  | counted {script counted : Script} {storage : Storage}
      (h : s.scripts.rows.get? id = some script) (hcount : script.recordRun time = .ok counted) :
      Counting id time runs s
        { s with scripts := { s.scripts with rows := s.scripts.rows.insert id counted }, storage }
        (.ok (.ok runs))
  /-- The script was deleted while it ran. -/
  | missing (h : s.scripts.rows.get? id = none) :
      Counting id time runs s s (.ok (.error (.scriptNotFound id)))
  /-- The run is counted, but the count cannot be saved. -/
  | unsaved {script counted : Script} (cause : PathError)
      (h : s.scripts.rows.get? id = some script) (hcount : script.recordRun time = .ok counted) :
      Counting id time runs s
        { s with scripts := { s.scripts with rows := s.scripts.rows.insert id counted } }
        (.ok (.error (.database (.io cause))))
  /-- No more runs of the script can be counted. -/
  | overflow {script : Script} (h : s.scripts.rows.get? id = some script)
      (hfull : script.runCount = Counter.largest) :
      Counting id time runs s s (.error Counter.overflow)

/-- What is made of a count where there is room for it. -/
theorem counting_addScriptRun (id : Uuid) (time : Instant) (runs : List ScriptRun) {s : State η}
    (h : ¬ s.Full (.script id)) :
    Counting id time runs s (addScriptRun id time s).2
      (.ok (((addScriptRun id time s).1.mapError (.ofStorage (.scriptNotFound id))).map fun _ =>
        runs)) := by
  rw [addScriptRun, State.changeScripts]
  cases hrow : s.scripts.rows.get? id with
  | none =>
    rw [Table.update_of_none scriptFormat _ s.storage hrow]
    exact .missing hrow
  | some script =>
    have hroom : script.runCount ≠ Counter.largest := fun he =>
      h (Option.map_eq_some_iff.mpr ⟨script, hrow, he⟩)
    have hcount := (script.recordRun_eq time).trans (if_neg hroom)
    rw [Table.update_of_some scriptFormat _ s.storage hrow]
    rcases Table.save_cases scriptFormat ()
        { s.scripts with rows := s.scripts.rows.insert id (script.afterRun time) } s.storage with
      ⟨after, hsave, -⟩ | ⟨cause, hsave⟩
    · rw [hsave]
      exact .counted hrow hcount
    · rw [hsave]
      exact .unsaved cause hrow hcount

/-- The clock is read, and the run is counted. -/
theorem concludeScript_eq (id : Uuid) (runs : List ScriptRun) :
    (concludeScript id runs : Routine (State η) _) =
      .commit (fun t => t.now.2) fun t => .commit (countScript id t.now.1) fun s =>
        if s.Full (.script id) then .crash Counter.overflow
        else .done (((addScriptRun id t.now.1 s).1.mapError (.ofStorage (.scriptNotFound id))).map
          fun _ => runs) := by
  refine congrArg (Routine.commit _) (funext fun t => ?_)
  show Routine.bind (recordScriptRun id t.now.1).run _ = _
  rw [run_recordScriptRun]
  refine congrArg (Routine.commit _) (funext fun s => ?_)
  dsimp only
  split
  · rfl
  · cases (addScriptRun id t.now.1 s).1 <;> rfl

theorem ends_concludeScript {id : Uuid} {runs : List ScriptRun} {steps : List (State η × State η)}
    {outcome : Except String (Except EngineError (List ScriptRun))}
    (h : Ends (concludeScript id runs) steps outcome) :
    ∃ t s, steps = [(t, t.now.2), (s, countScript id t.now.1 s)] ∧
      Counting id t.now.1 runs s (countScript id t.now.1 s) outcome := by
  rw [concludeScript_eq] at h
  cases h with
  | commit t h =>
    cases h with
    | commit s h =>
      dsimp only at h
      by_cases hfull : s.Full (.script id)
      · rw [if_pos hfull] at h
        obtain ⟨script, hrow, hcount⟩ := Option.map_eq_some_iff.mp hfull
        cases h with
        | crash =>
          refine ⟨t, s, rfl, ?_⟩
          rw [countScript, if_pos hfull]
          exact .overflow hrow hcount
      · rw [if_neg hfull] at h
        cases h with
        | done =>
          refine ⟨t, s, rfl, ?_⟩
          rw [countScript, if_neg hfull]
          exact counting_addScriptRun id t.now.1 runs hfull

/-- Once the script has compiled its rules run to an end, and then the run is counted. -/
theorem ends_runProgram {engine : Engine η} {id : Uuid} {context : Context} {rules : List Rule}
    {steps : List (State η × State η)}
    {outcome : Except String (Except EngineError (List ScriptRun))}
    (h : Ends (engine.runRules id context 0 rules >>= concludeScript id) steps outcome) :
    ∃ ran runs t u, steps = ran ++ [(t, t.now.2), (u, countScript id t.now.1 u)] ∧
      Ends (engine.runRules id context 0 rules) ran (.ok runs) ∧
      Counting id t.now.1 runs u (countScript id t.now.1 u) outcome := by
  rcases ends_bind h with ⟨message, hrun, -⟩ | ⟨runs, ran, last, hrun, hlast, rfl⟩
  · obtain ⟨_, he⟩ := ends_runRules hrun
    cases he
  · obtain ⟨t, u, rfl, hcount⟩ := ends_concludeScript hlast
    exact ⟨ran, runs, t, u, rfl, hrun, hcount⟩

/-- What a call that runs a script can come to by its steps. -/
inductive RunAnswer (engine : Engine η) (id : Uuid) (context : Context) :
    List (State η × State η) → Except String (Except EngineError (List ScriptRun)) → Prop where
  | missing {s : State η} (h : s.scripts.rows.get? id = none) :
      RunAnswer engine id context [(s, s)] (.ok (.error (.scriptNotFound id)))
  | uncompiled {s : State η} {script : Script} {cause : SyntaxError}
      (h : s.scripts.rows.get? id = some script) (hp : script.program = .error cause) :
      RunAnswer engine id context [(s, s)] (.ok (.error (.uncompiled cause)))
  /-- The rules have run to an end; only then may something be wrong with the count. -/
  | ran {s t u u' : State η} {script : Script} {program : Program}
      {ran : List (State η × State η)} {runs : List ScriptRun}
      {outcome : Except String (Except EngineError (List ScriptRun))}
      (h : s.scripts.rows.get? id = some script) (hp : script.program = .ok program)
      (hran : Ends (engine.runRules id context 0 program.rules) ran (.ok runs))
      (hc : Counting id t.now.1 runs u u' outcome) :
      RunAnswer engine id context ((s, s) :: (ran ++ [(t, t.now.2), (u, u')])) outcome

/-- What becomes of a call that runs a script. It returns an error if the first look finds nothing
to run, and nothing has run then. Otherwise the rules run to an end, and it returns what they came
to, unless the script was deleted meanwhile or the count of the run cannot be saved; and if no more
runs can be counted it crashes with the count. -/
theorem runScript_answers {engine : Engine η} {id : Uuid} {context : Context}
    {steps : List (State η × State η)}
    {outcome : Except String (Except EngineError (List ScriptRun))}
    (h : Ends (engine.runScript id context).run steps outcome) :
    RunAnswer engine id context steps outcome := by
  rw [run_runScript] at h
  cases h with
  | commit s h =>
    dsimp only at h ⊢
    cases hrow : s.scripts.rows.get? id with
    | none =>
      rw [hrow] at h
      cases h with
      | done => exact .missing hrow
    | some script =>
      simp only [hrow] at h
      cases hprogram : script.program with
      | error cause =>
        rw [hprogram] at h
        cases h with
        | done => exact .uncompiled hrow hprogram
      | ok program =>
        rw [hprogram] at h
        obtain ⟨ran, runs, t, u, rfl, hrun, hcount⟩ := ends_runProgram h
        exact .ran hrow hprogram hrun hcount

namespace Bell

/-- A bell that counts how often it is rung. -/
def ring : Handler Nat := fun _ => do
  Routine.modify (· + 1)
  return .ok .null

def engine : Engine Nat :=
  ⟨Registry.ofList [("ring", ring)], ⟨Dict.empty, .stored, .standard⟩, Catalog.builtin, 0,
    taskCrashed⟩

def script : Script := Script.create ⟨1⟩ ⟨0, 0⟩ "bell" "on go do ring() end"

def world (rung : Nat) : World Nat :=
  ⟨rung, 0, ⟨fun n => ⟨BitVec.ofNat 128 n⟩, 0⟩, ⟨fun n => ⟨n, 0⟩, 0⟩, ⟨fun n => n, 0⟩,
    ⟨fun n => n, 0⟩⟩

/-- The bell has been rung so often, and these scripts are there. -/
def state (rung : Nat) (scripts : List (Uuid × Script)) : State Nat :=
  { State.start (world rung) with scripts := ⟨"scripts", false, Dict.ofList scripts⟩ }

/-- The script rings the bell, and is deleted before the run is counted. -/
def steps : List (State Nat × State Nat) :=
  [(state 0 [(⟨1⟩, script)], state 0 [(⟨1⟩, script)]),
    (state 0 [(⟨1⟩, script)], state 1 [(⟨1⟩, script)]), (state 1 [], (state 1 []).now.2),
    ((state 1 []).now.2, (state 1 []).now.2)]

theorem program_script : script.program = .ok ⟨[⟨.event "go" none, [⟨"ring", []⟩]⟩]⟩ := by
  decide +kernel

theorem ends_steps : Ends (engine.runScript ⟨1⟩ Dict.empty).run steps
    (.ok (.error (.scriptNotFound ⟨1⟩))) := by
  rw [run_runScript]
  refine .commit (state 0 [(⟨1⟩, script)]) ?_
  have hrow : (state 0 [(⟨1⟩, script)]).scripts.rows.get? ⟨1⟩ = some script := rfl
  simp only [hrow, program_script]
  exact .commit (state 0 [(⟨1⟩, script)]) (.commit (state 1 []) (.commit _ (.done _)))

/-- The bell was rung, and all the caller learns is that there is no such script. -/
theorem runScript_answers_bell : Ends (engine.runScript ⟨1⟩ Dict.empty).run steps
      (.ok (.error (.scriptNotFound ⟨1⟩))) ∧
    steps.map (fun step => step.2.world.handlers) = [0, 1, 1, 1] ∧
    RunAnswer engine ⟨1⟩ Dict.empty steps (.ok (.error (.scriptNotFound ⟨1⟩))) :=
  ⟨ends_steps, rfl, runScript_answers ends_steps⟩

end Bell

end Automation.Engine
