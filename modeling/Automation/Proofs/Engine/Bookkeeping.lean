import Automation.Engine.Job
import Automation.Proofs.Engine.Ledger
import Automation.Proofs.Engine.Report
import Automation.Proofs.Engine.Schedule
import Automation.Proofs.Routine.Invariant

/-!
# What runs leave behind

Of all that is stored, running scripts and workflows changes only what is counted of the runs: how
often and when something has run last, and the variables of a workflow. What was not run keeps these
too. A run that an event or a schedule sets off is counted under the identifier of the script
itself, whichever key the script is stored under. The two are the same in every table that the
engine has filled, but a file can say otherwise; then the run of one script is counted for another.
-/
namespace Automation

/-- A script after runs. -/
def Script.Ran (before after : Script) : Prop :=
  ∃ runCount lastRun, after = { before with runCount, lastRun }

/-- A workflow after runs. -/
def Workflow.Ran (before after : Workflow) : Prop :=
  ∃ runCount lastRun vars, after = { before with runCount, lastRun, vars }

namespace Script.Ran

variable {a b c : Script}

theorem refl (a : Script) : Ran a a := ⟨a.runCount, a.lastRun, rfl⟩

theorem trans (h : Ran a b) (h' : Ran b c) : Ran a c := by
  obtain ⟨_, _, rfl⟩ := h
  obtain ⟨runCount, lastRun, rfl⟩ := h'
  exact ⟨runCount, lastRun, rfl⟩

theorem afterRun (a : Script) (now : Instant) : Ran a (a.afterRun now) :=
  ⟨a.runCount + 1, some now, rfl⟩

theorem program_eq (h : Ran a b) : b.program = a.program := by
  obtain ⟨_, _, rfl⟩ := h
  rfl

end Script.Ran

namespace Workflow.Ran

variable {a b c : Workflow}

theorem refl (a : Workflow) : Ran a a := ⟨a.runCount, a.lastRun, a.vars, rfl⟩

theorem trans (h : Ran a b) (h' : Ran b c) : Ran a c := by
  obtain ⟨_, _, _, rfl⟩ := h
  obtain ⟨runCount, lastRun, vars, rfl⟩ := h'
  exact ⟨runCount, lastRun, vars, rfl⟩

theorem afterRun (a : Workflow) (now : Instant) (vars : Variables) :
    Ran a (a.afterRun now vars) :=
  ⟨a.runCount + 1, some now, vars, rfl⟩

end Workflow.Ran

namespace Engine

open Routine Weave

variable {η α : Type}

/-- Only these have run: no row has come or gone, every row is what it was but for what is counted
of its runs, and all others are what they were. -/
structure Runs (ran : Subject → Prop) (s s' : State η) : Prop where
  scripts : ∀ key, Option.Rel Script.Ran (s.scripts.rows.get? key) (s'.scripts.rows.get? key)
  workflows : ∀ key,
    Option.Rel Workflow.Ran (s.workflows.rows.get? key) (s'.workflows.rows.get? key)
  idleScripts : ∀ key, ¬ ran (.script key) →
    s'.scripts.rows.get? key = s.scripts.rows.get? key
  idleWorkflows : ∀ key, ¬ ran (.workflow key) →
    s'.workflows.rows.get? key = s.workflows.rows.get? key

section Frame

variable {ran other : Subject → Prop} {s t u : State η}

theorem rel_refl {r : α → α → Prop} (hr : ∀ a, r a a) (a : Option α) : Option.Rel r a a := by
  cases a with
  | none => exact .none
  | some a => exact .some (hr a)

theorem rel_trans {r : α → α → Prop} (hr : ∀ a b c, r a b → r b c → r a c) {a b c : Option α}
    (h : Option.Rel r a b) (h' : Option.Rel r b c) : Option.Rel r a c := by
  cases h with
  | none => exact h'
  | some h => cases h' with
    | some h' => exact .some (hr _ _ _ h h')

/-- A change of one row that keeps to a relation. -/
theorem rel_rows_update {r : α → α → Prop} (hr : ∀ a, r a a) (format : RowFormat α) (id : Uuid)
    {change : α → Unit × α} (hc : ∀ a, r a (change a).2) (table : Table α) (storage : Storage)
    (key : Uuid) :
    Option.Rel r (table.rows.get? key)
      ((Table.update format id change (table, storage)).2.1.rows.get? key) := by
  rw [Table.get?_rows_update]
  split
  · cases table.rows.get? key with
    | none => exact .none
    | some row => exact .some (hc row)
  · exact rel_refl hr _

/-- The tables are what they were. -/
theorem runs_of_eq (hs : t.scripts = s.scripts) (hw : t.workflows = s.workflows) :
    Runs ran s t := by
  refine ⟨fun key => ?_, fun key => ?_, fun key _ => by rw [hs], fun key _ => by rw [hw]⟩
  · rw [hs]
    exact rel_refl Script.Ran.refl _
  · rw [hw]
    exact rel_refl Workflow.Ran.refl _

theorem Runs.trans (h : Runs ran s t) (h' : Runs ran t u) : Runs ran s u where
  scripts key := rel_trans (fun _ _ _ hab hbc => hab.trans hbc) (h.scripts key) (h'.scripts key)
  workflows key :=
    rel_trans (fun _ _ _ hab hbc => hab.trans hbc) (h.workflows key) (h'.workflows key)
  idleScripts key hkey := (h'.idleScripts key hkey).trans (h.idleScripts key hkey)
  idleWorkflows key hkey := (h'.idleWorkflows key hkey).trans (h.idleWorkflows key hkey)

theorem Runs.mono (h : Runs ran s t) (hr : ∀ subject, ran subject → other subject) :
    Runs other s t where
  scripts := h.scripts
  workflows := h.workflows
  idleScripts key hkey := h.idleScripts key fun hran => hkey (hr _ hran)
  idleWorkflows key hkey := h.idleWorkflows key fun hran => hkey (hr _ hran)

theorem ran_countScript {id : Uuid} (hid : ran (.script id)) (now : Instant) (s : State η) :
    Runs ran s (countScript id now s) := by
  let count := Table.update scriptFormat id fun script : Script => ((), script.afterRun now)
  rw [countScript]
  split
  · exact runs_of_eq rfl rfl
  have hrow : (addScriptRun id now s).2.scripts = (count (s.scripts, s.storage)).2.1 := rfl
  have hworkflows : (addScriptRun id now s).2.workflows = s.workflows := rfl
  refine ⟨fun key => ?_, fun key => ?_, fun key hkey => ?_, fun key _ => by rw [hworkflows]⟩
  · rw [hrow]
    exact rel_rows_update Script.Ran.refl scriptFormat id
      (fun script => Script.Ran.afterRun script now) s.scripts s.storage key
  · rw [hworkflows]
    exact rel_refl Workflow.Ran.refl _
  · have hne : id ≠ key := fun he => hkey (he ▸ hid)
    rw [hrow, Table.get?_rows_update, if_neg hne]

theorem ran_countWorkflow {id : Uuid} (hid : ran (.workflow id)) (now : Instant)
    (vars : Variables) (s : State η) : Runs ran s (countWorkflow id now vars s) := by
  let count := Table.update workflowFormat id fun w : Workflow => ((), w.afterRun now vars)
  rw [countWorkflow]
  split
  · exact runs_of_eq rfl rfl
  have hrow : (addWorkflowRun id now vars s).2.workflows = (count (s.workflows, s.storage)).2.1 :=
    rfl
  have hscripts : (addWorkflowRun id now vars s).2.scripts = s.scripts := rfl
  refine ⟨fun key => ?_, fun key => ?_, fun key _ => by rw [hscripts], fun key hkey => ?_⟩
  · rw [hscripts]
    exact rel_refl Script.Ran.refl _
  · rw [hrow]
    exact rel_rows_update Workflow.Ran.refl workflowFormat id
      (fun w => Workflow.Ran.afterRun w now vars) s.workflows s.storage key
  · have hne : id ≠ key := fun he => hkey (he ▸ hid)
    rw [hrow, Table.get?_rows_update, if_neg hne]

/-- A commit that does no more than count runs. -/
def OnlyCounts (ran : Subject → Prop) (update : State η → State η) : Prop :=
  ∀ s, Runs ran s (update s)

theorem coversLog_onlyCounts : CoversLog (OnlyCounts ran : (State η → State η) → Prop) :=
  fun _ _ _ => runs_of_eq rfl rfl

theorem maintains_of_onlyCounts {p : Routine (State η) α} (h : Commits (OnlyCounts ran) p)
    (s : State η) : Maintains (Runs ran s) p :=
  .of_commits (h.mono fun _ hcounts t ht => ht.trans (hcounts t))

end Frame

section Requests

/-- The ways to set off runs. -/
inductive RunRequest where
  | script (id : Uuid)
  | workflow (id : Uuid)
  | event (name : String)
  | schedule (expression : String)

/-- What such a request comes to. -/
inductive Finding where
  | script (answer : Except EngineError (List ScriptRun))
  | workflow (answer : Except EngineError Execution)
  | report (report : Report)

/-- Where a run is counted, given the key and the identifier of what fits. -/
abbrev Place := (key id : Uuid) → Uuid

/-- Under its identifier. -/
def byId : Place := fun _ id => id

/-- Where it is stored. -/
def byKey : Place := fun key _ => key

/-- Whether something with a fitting trigger has its runs counted there. -/
def SetsOff (place : Place) (fits : Trigger → Bool) (s : State η) : Subject → Prop
  | .script id => ∃ key script, s.scripts.rows.get? key = some script ∧
    fittingRules fits script ≠ [] ∧ place key script.id = id
  | .workflow id => ∃ key w, s.workflows.rows.get? key = some w ∧
    (w.enabled ∧ fits w.trigger) ∧ place key w.id = id

namespace RunRequest

def job (engine : Engine η) (context : Context) : RunRequest → Job η Finding
  | script id => .single (Finding.script <$> (engine.runScript id context).run)
  | workflow id => .single (Finding.workflow <$> (engine.executeWorkflow id context).run)
  | event name => .sideBySide (engine.event name context) .report
  | schedule expression => .sideBySide (engine.fireSchedule expression context) .report

/-- What a request starts a run of. A script that does not compile does not run. -/
def Starts (place : Place) (s : State η) (context : Context) : RunRequest → Subject → Prop
  | script id, subject => subject = .script id ∧ ∃ script program,
    s.scripts.rows.get? id = some script ∧ script.program = .ok program
  | workflow id, subject => subject = .workflow id
  | event name, subject => SetsOff place (fitsEvent name context) s subject
  | schedule expression, subject =>
    SetsOff place (fitsSchedule (Text.trim expression)) s subject

end RunRequest

end Requests

section Strands

variable {ran : Subject → Prop} {engine : Engine η} {context : Context} {s : State η}

/-- The rules of a script only run if it compiles, which no run has changed. -/
theorem maintains_runScript {id : Uuid}
    (h : ∀ script program, s.scripts.rows.get? id = some script → script.program = .ok program →
      ran (.script id)) :
    Maintains (Runs ran s) (engine.runScript id context).run := by
  rw [run_runScript]
  refine .commit (fun t ht => ht) fun t ht => ?_
  cases hrow : t.scripts.rows.get? id with
  | none => exact .done _
  | some script =>
    dsimp only
    cases hprogram : script.program with
    | error cause => exact .done _
    | ok program =>
      have hran : ran (.script id) := by
        have hrel := ht.scripts id
        rw [hrow] at hrel
        generalize hbefore : s.scripts.rows.get? id = before at hrel
        cases hrel with
        | some hrel => exact h _ program hbefore (hrel.program_eq ▸ hprogram)
      have hlog : CoversLog (OnlyCounts ran : (State η → State η) → Prop) := coversLog_onlyCounts
      have hworld := hlog.world
      refine maintains_of_onlyCounts ((commits_runRules hworld engine id context 0 _).bind
        fun runs => ?_) s
      exact commits_bind (commits_recordScriptRunNow hworld id fun now => ran_countScript hran now)
        fun _ => .done _

theorem maintains_executeWorkflow {id : Uuid} (h : ran (.workflow id)) :
    Maintains (Runs ran s) (engine.executeWorkflow id context).run :=
  maintains_of_onlyCounts (commits_executeWorkflow engine id context coversLog_onlyCounts
    fun now vars => ran_countWorkflow h now vars) s

theorem maintains_task {task : Task}
    (hr : ∀ script index r, task = .rule script index r → ran (.script script.id))
    (hw : ∀ w, task = .workflow w → ran (.workflow w.id)) :
    Maintains (Runs ran s) (task.run engine context) := by
  cases task with
  | rule script index r =>
    exact maintains_of_onlyCounts (commits_superviseRule coversLog_onlyCounts.world engine script.id
      context (fun now => ran_countScript (hr script index r rfl) now) index r) s
  | workflow w =>
    exact maintains_of_onlyCounts (commits_runWorkflow engine w.id context coversLog_onlyCounts
      fun now vars => ran_countWorkflow (hw w rfl) now vars) s

/-- Whatever is listed is stored under some key. -/
theorem stored_of_mem_list {table : Table α} {row : α} (h : row ∈ table.list) :
    ∃ key, table.rows.get? key = some row := by
  obtain ⟨⟨key, _⟩, hentry, rfl⟩ := List.mem_map.mp h
  exact ⟨key, Dict.get?_eq_some_iff.mpr hentry⟩

/-- What an event or a schedule sets off is counted under its own identifier. -/
theorem maintains_all {fits : Trigger → Bool}
    (h : ∀ subject, SetsOff byId fits s subject → ran subject) {task : Task}
    (hmem : task ∈ Task.all fits s) : Maintains (Runs ran s) (task.run engine context) := by
  rcases List.mem_append.mp hmem with hmem | hmem
  · obtain ⟨script, hscript, hmem⟩ := List.mem_flatMap.mp hmem
    obtain ⟨⟨r, index⟩, hrule, rfl⟩ := List.mem_map.mp hmem
    obtain ⟨key, hkey⟩ := stored_of_mem_list (List.mem_mergeSort.mp hscript)
    have hran : ran (.script script.id) :=
      h _ ⟨key, script, hkey, List.ne_nil_of_mem hrule, rfl⟩
    refine maintains_task (fun _ _ _ he => ?_) nofun
    cases he
    exact hran
  · obtain ⟨w, hw, rfl⟩ := List.mem_map.mp hmem
    obtain ⟨hw, hfits⟩ := List.mem_filter.mp hw
    obtain ⟨key, hkey⟩ := stored_of_mem_list (List.mem_mergeSort.mp hw)
    have hran : ran (.workflow w.id) :=
      h _ ⟨key, w, hkey, Bool.and_eq_true_iff.mp hfits, rfl⟩
    refine maintains_task nofun fun _ he => ?_
    cases he
    exact hran

/-- A task as a part of a job. -/
def Task.part (engine : Engine η) (context : Context) (task : Task) : Routine (State η) (Part α) :=
  Part.one <$> task.run engine context

/-- What an occasion starts. -/
theorem runAlone_parts (engine : Engine η) (context : Context) (fits : Trigger → Bool)
    (report : Report → α) (s : State η) :
    (Job.sideBySide (engine.occasion context fits) report).parts.runAlone s =
      ⟨.ok ((Task.all fits s).map (Task.part engine context)), s, []⟩ := by
  rw [Job.parts, runAlone_bind, runAlone_occasion, Ending.andThen_ok, List.map_map]
  rfl

theorem exists_occasion (engine : Engine η) (context : Context) {fits : Trigger → Bool}
    (h : ∀ subject, SetsOff byId fits s subject → ran subject) (report : Report → α) :
    ∃ strands, (Job.sideBySide (engine.occasion context fits) report).parts.runAlone s =
        ⟨.ok strands, s, []⟩ ∧ ∀ p ∈ strands, Maintains (Runs ran s) p := by
  refine ⟨_, runAlone_parts engine context fits report s, fun p hmem => ?_⟩
  obtain ⟨task, htask, rfl⟩ := List.mem_map.mp hmem
  exact (maintains_all h htask).bind fun _ => .done _

/-- The routines that a request starts, each of which only counts runs. -/
theorem RunRequest.exists_parts (engine : Engine η) (context : Context) (request : RunRequest)
    (h : ∀ subject, request.Starts byId s context subject → ran subject) :
    ∃ strands, (request.job engine context).parts.runAlone s = ⟨.ok strands, s, []⟩ ∧
      ∀ p ∈ strands, Maintains (Runs ran s) p := by
  cases request with
  | script id =>
    refine ⟨_, rfl, List.forall_mem_singleton.mpr ?_⟩
    have hrun : Maintains (Runs ran s) (engine.runScript id context).run :=
      maintains_runScript fun script program hrow hprogram =>
        h _ ⟨rfl, script, program, hrow, hprogram⟩
    exact (hrun.bind fun _ => .done _).bind fun _ => .done _
  | workflow id =>
    refine ⟨_, rfl, List.forall_mem_singleton.mpr ?_⟩
    exact ((maintains_executeWorkflow (h _ rfl)).bind fun _ => .done _).bind fun _ => .done _
  | event name => exact exists_occasion engine context h _
  | schedule expression => exact exists_occasion engine context h _

end Strands

/-- In a table whose rows are stored under their own identifiers it makes no difference where runs
are counted. -/
theorem SetsOff.byKey_of_filed {fits : Trigger → Bool} {s : State η} (hs : s.Filed)
    {subject : Subject} (h : SetsOff byId fits s subject) : SetsOff byKey fits s subject := by
  cases subject with
  | script id =>
    obtain ⟨key, script, hstored, hfits, rfl⟩ := h
    exact ⟨key, script, hstored, hfits, (hs.scripts key script hstored).symm⟩
  | workflow id =>
    obtain ⟨key, w, hstored, hfits, rfl⟩ := h
    exact ⟨key, w, hstored, hfits, (hs.workflows key w hstored).symm⟩

theorem RunRequest.Starts.byKey_of_filed {s : State η} (hs : s.Filed) {context : Context}
    {request : RunRequest} {subject : Subject} (h : request.Starts byId s context subject) :
    request.Starts byKey s context subject := by
  cases request with
  | script id => exact h
  | workflow id => exact h
  | event name => exact SetsOff.byKey_of_filed hs h
  | schedule expression => exact SetsOff.byKey_of_filed hs h

/-- Whatever the handlers do, and however the runs end and take turns with those of others: what is
stored stays as it is, but for the counts of what has run. What a request sets off is counted under
its own identifier, which is where it is stored, if every row is stored under its own. -/
theorem only_counts_change (engine : Engine η) (context : Context) (request : RunRequest)
    (s : State η) (others : Subject → Prop) :
    ∃ strands, (request.job engine context).parts.runAlone s = ⟨.ok strands, s, []⟩ ∧
      ∀ began w, Reaches (Runs others) (Weave.start began s strands) w →
        Runs (fun subject => request.Starts byId s context subject ∨ others subject) s w.state ∧
        (s.Filed →
          Runs (fun subject => request.Starts byKey s context subject ∨ others subject) s
            w.state) := by
  obtain ⟨strands, hstart, hmaintains⟩ := @RunRequest.exists_parts _
    (fun subject => request.Starts byId s context subject ∨ others subject) s engine context
    request fun _ => Or.inl
  refine ⟨strands, hstart, fun began w hw => ?_⟩
  have hruns := hw.maintains_start (fun _ _ ho ht => ht.trans (ho.mono fun _ => Or.inr))
    (runs_of_eq rfl rfl) hmaintains
  exact ⟨hruns, fun hfiled => hruns.mono fun _ hor =>
    hor.imp_left fun hstarts => hstarts.byKey_of_filed hfiled⟩

namespace Misfiled

open Bell

/-- A script without rules. -/
def quiet (id : Uuid) : Script := Script.create id ⟨0, 0⟩ "quiet" ""

/-- The script that rings the bell is stored under the first identifier and the other one under the
second, whatever their own. -/
def tables (id other : Uuid) : State Nat :=
  Bell.state 0 [(⟨1⟩, { script with id }), (⟨2⟩, quiet other)]

def rule : Rule := ⟨.event "go" none, [⟨"ring", []⟩]⟩

/-- The run that the event sets off. -/
def task (id : Uuid) : Task := .rule { script with id } 0 rule

theorem fitting_quiet (id : Uuid) :
    fittingRules (fitsEvent "go" Dict.empty) (quiet id) = [] := by
  have hprogram : (quiet ⟨0⟩).program = .ok ⟨[]⟩ := by decide +kernel
  have hsame : (quiet id).program = .ok ⟨[]⟩ := hprogram
  simp only [fittingRules, hsame]
  rfl

theorem all_tables (id other : Uuid) :
    Task.all (fitsEvent "go" Dict.empty) (tables id other) = [task id] := by
  have hscripts : (tables id other).scriptList = [{ script with id }, quiet other] :=
    List.mergeSort_of_pairwise (List.pairwise_pair.mpr rfl)
  have hworkflows : (tables id other).workflowList = [] := List.mergeSort_nil
  have hrings : fittingRules (fitsEvent "go" Dict.empty) { script with id } = [(rule, 0)] := by
    have hprogram : ({ script with id } : Script).program = .ok ⟨[rule]⟩ := program_script
    simp only [fittingRules, hprogram]
    rfl
  rw [Task.all, hscripts, hworkflows, List.flatMap_cons, List.flatMap_cons, Task.ofScript, hrings,
    Task.ofScript, fitting_quiet]
  rfl

/-- Nothing is to run of the script without rules. -/
theorem not_setsOff_quiet (id other : Uuid) :
    ¬ SetsOff byKey (fitsEvent "go" Dict.empty) (tables id other) (.script ⟨2⟩) := by
  rintro ⟨key, found, hstored, hfits, rfl⟩
  obtain rfl : quiet other = found := Option.some.inj hstored
  exact hfits (fitting_quiet other)

def part (id : Uuid) : Routine (State Nat) (Part Finding) := (task id).part engine Dict.empty

theorem runAlone_event (id other : Uuid) :
    ((RunRequest.event "go").job engine Dict.empty).parts.runAlone (tables id other) =
      ⟨.ok [part id], tables id other, []⟩ := by
  have hparts := runAlone_parts engine Dict.empty (fitsEvent "go" Dict.empty) Finding.report
    (tables id other)
  rw [all_tables] at hparts
  exact hparts

/-- When the run has ended, which it does at once. -/
def last (id other : Uuid) : State Nat := ((part id).advance (tables id other)).2

theorem count_last : ∀ ids ∈ [((⟨1⟩, ⟨2⟩) : Uuid × Uuid), (⟨2⟩, ⟨3⟩)],
    ((last ids.1 ids.2).scripts.rows.get? ids.1).map Script.runCount = some 1 := by
  decide +kernel

theorem finished_last : ∀ ids ∈ [((⟨1⟩, ⟨2⟩) : Uuid × Uuid), (⟨2⟩, ⟨3⟩)],
    ((part ids.1).advance (tables ids.1 ids.2)).1.isFinished := by
  decide +kernel

theorem reaches_last {id other : Uuid} (may : State Nat → State Nat → Prop)
    (h : (id, other) ∈ [((⟨1⟩, ⟨2⟩) : Uuid × Uuid), (⟨2⟩, ⟨3⟩)]) : ∃ finding,
    Reaches may (Weave.start 0 (tables id other) [part id])
      ⟨0, last id other, [.ended 0 (.ok finding)]⟩ := by
  obtain ⟨finding, hfinding⟩ := Standing.exists_finished (finished_last _ h)
  have hsteps := @steps_finished _ _ _ _ _ _ 0 0 [.underway 0 (part id)] rfl
    (fun due _ _ => Nat.zero_le due) (Prod.ext hfinding rfl)
  exact ⟨finding, Reaches.refl.steps hsteps.to_reflTransGen⟩

/-- A run of a script that is stored under its own identifier is counted there, and the other script
is left alone. -/
theorem only_counts_change_bell : ∃ w,
    Reaches (Runs fun _ => False) (Weave.start 0 (tables ⟨1⟩ ⟨2⟩) [part ⟨1⟩]) w ∧ w.Over ∧
      Option.Rel Script.Ran (some script) (w.state.scripts.rows.get? ⟨1⟩) ∧
      (w.state.scripts.rows.get? ⟨1⟩).map Script.runCount = some 1 ∧
      w.state.scripts.rows.get? ⟨2⟩ = some (quiet ⟨2⟩) := by
  have hfiled : (tables ⟨1⟩ ⟨2⟩).Filed := by
    refine ⟨fun key found hstored => ?_, fun _ _ hstored => nomatch hstored⟩
    have hmem := Dict.mem_of_get?_ofList hstored
    simp only [List.mem_cons, List.not_mem_nil, or_false, Prod.mk.injEq] at hmem
    obtain ⟨rfl, rfl⟩ | ⟨rfl, rfl⟩ := hmem
    · rfl
    · rfl
  obtain ⟨finding, hlast⟩ := reaches_last (Runs fun _ => False) List.mem_cons_self
  obtain ⟨strands, hstart, hall⟩ := only_counts_change engine Dict.empty (.event "go")
    (tables ⟨1⟩ ⟨2⟩) fun _ => False
  rw [runAlone_event] at hstart
  obtain rfl := Except.ok.inj (congrArg Ending.outcome hstart)
  have hruns := (hall 0 _ hlast).2 hfiled
  refine ⟨_, hlast, List.forall_mem_singleton.mpr ⟨0, _, rfl⟩, hruns.scripts ⟨1⟩,
    count_last (⟨1⟩, ⟨2⟩) List.mem_cons_self, hruns.idleScripts ⟨2⟩ fun hstarts => ?_⟩
  exact not_setsOff_quiet ⟨1⟩ ⟨2⟩ (hstarts.resolve_right id)

/-- A run of a script that is stored elsewhere is counted for the script that is stored under its
identifier, of which nothing has run. -/
theorem counted_for_another : ∃ w,
    ((RunRequest.event "go").job engine Dict.empty).parts.runAlone (tables ⟨2⟩ ⟨3⟩) =
      ⟨.ok [part ⟨2⟩], tables ⟨2⟩ ⟨3⟩, []⟩ ∧
    Reaches (Runs fun _ => False) (Weave.start 0 (tables ⟨2⟩ ⟨3⟩) [part ⟨2⟩]) w ∧ w.Over ∧
    ¬ Runs (fun subject => (RunRequest.event "go").Starts byKey (tables ⟨2⟩ ⟨3⟩) Dict.empty subject)
      (tables ⟨2⟩ ⟨3⟩) w.state := by
  obtain ⟨finding, hlast⟩ := reaches_last (Runs fun _ => False)
    (List.mem_cons_of_mem _ List.mem_cons_self)
  refine ⟨_, runAlone_event ⟨2⟩ ⟨3⟩, hlast, List.forall_mem_singleton.mpr ⟨0, _, rfl⟩,
    fun hruns => ?_⟩
  have hcount := count_last (⟨2⟩, ⟨3⟩) (by decide)
  dsimp only at hcount
  have hidle : (last ⟨2⟩ ⟨3⟩).scripts.rows.get? ⟨2⟩ = some (quiet ⟨3⟩) :=
    hruns.idleScripts ⟨2⟩ (not_setsOff_quiet ⟨2⟩ ⟨3⟩)
  rw [hidle] at hcount
  cases hcount

end Misfiled

end Engine
end Automation
