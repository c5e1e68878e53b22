import Automation.Proofs.Dict
import Automation.Proofs.Engine.Task
import Automation.Proofs.Routine.Timeline
import Mathlib.Data.List.Nodup
import Mathlib.Data.List.Perm.Basic

/-!
# What an event comes to

An event sets off rules of scripts and workflows, which run side by side. However they take turns,
all of them end, and the report holds one run for each rule and one execution for each workflow that
was set off, so long as the counters have room for all of them. A run comes to the same, after the
same time, as if it had been the only one, but for the number of its task, which the report of a
crash mentions. Workflows run by their identifiers: a table can hold one under another key than its
own, and then the workflow that runs is the one under its identifier, if there is one.
-/
namespace Automation.Engine

open Routine Weave

variable {η α : Type}

/-- The script under a key has a rule that an event sets off. -/
structure Fires (s : State η) (name : String) (context : Context) (key : Uuid) (script : Script)
    (index : Nat) : Prop where
  stored : s.scripts.rows.get? key = some script
  enabled : script.enabled
  rule : ∃ program r, script.program = .ok program ∧ program.rules[index]? = some r ∧
    r.trigger.matchesEvent name context

/-- The workflow under a key is set off by an event. -/
structure Starts (s : State η) (name : String) (context : Context) (key : Uuid) (w : Workflow) :
    Prop where
  stored : s.workflows.rows.get? key = some w
  enabled : w.enabled
  trigger : w.trigger.matchesEvent name context

/-- The report has one run for each rule that an event sets off, one execution for each workflow
that it sets off if one comes to run, and no others. -/
structure Complete (ran : Workflow → Option Uuid) (s : State η) (name : String) (context : Context)
    (report : Report) : Prop where
  scripts : ∃ fired : List (Uuid × Script × Nat), fired.Nodup ∧
    (∀ key script index, (key, script, index) ∈ fired ↔ Fires s name context key script index) ∧
    (report.scriptRuns.map fun run => (run.scriptId, run.ruleIndex)).Perm
      (fired.map fun (_, script, index) => (script.id, index))
  workflows : ∃ started : List (Uuid × Workflow), started.Nodup ∧
    (∀ key w, (key, w) ∈ started ↔ Starts s name context key w) ∧
    (report.executions.map Execution.workflowId).Perm (started.filterMap fun (_, w) => ran w)

namespace Task

/-- No two of the workflows that an event sets off have the identifier of the task's workflow. -/
def Lone (s : State η) (name : String) (context : Context) (task : Task) : Prop :=
  ∀ w, task.workflow? = some w → ∀ key other second third, Starts s name context key second →
    Starts s name context other third → second.id = w.id → third.id = w.id → key = other

/-- A strand ended in what the task comes to by itself, but for the number of a task that crashed,
and when it ends by itself. -/
def AsAlone (engine : Engine η) (context : Context) (s : State η) (began : Nat) (task : Task)
    (strand : Strand (State η) Result) : Prop :=
  ∃ result alone, ((task.run engine context).runAlone s).outcome = .ok alone ∧
    result.Same engine alone ∧
    strand = .ended (began + ((task.run engine context).runAlone s).elapsed) (.ok result)

end Task

/-- The triggers that an event sets off. -/
def fitsEvent (name : String) (context : Context) (trigger : Trigger) : Bool :=
  trigger.matchesEvent name context

/-- What an event sets off. -/
def tasks (name : String) (context : Context) (s : State η) : List Task :=
  Task.all (fitsEvent name context) s

/-- What can come of the runs that an event starts at a time, while nobody else changes the
workflows or counts runs. -/
def Comes (engine : Engine η) (name : String) (context : Context) (s : State η) (began : Nat)
    (w : Weave (State η) Result) : Prop :=
  Reaches Undisturbed
    (Weave.start began s ((tasks name context s).map (Task.run engine context))) w

/-- What an event comes to. -/
structure Answers (engine : Engine η) (name : String) (context : Context) (s : State η) : Prop where
  starts : (engine.event name context).runAlone s =
    ⟨.ok ((tasks name context s).map (Task.run engine context)), s, []⟩
  /-- There is no end of turns before all runs have ended, and there are only finitely many. -/
  ends : ∀ began w, Comes engine name context s began w →
    (w.Over ∨ ∃ next, Weave.Step w next) ∧ Acc (fun next w => Weave.Step w next) w
  complete : ∀ began w, Comes engine name context s began w → w.Over →
    ∀ results, results.Perm w.results →
      Complete s.ran? s name context (Report.ofResults results)
  alone : ∀ began w, Comes engine name context s began w → w.Over →
    List.Forall₂ (fun task strand => task.Functional engine s → task.Lone s name context →
      task.AsAlone engine context s began strand) (tasks name context s) w.strands
  /-- A timeline of their own is one way to take turns. -/
  timeline : ∃ fuel, ∀ more, fuel ≤ more →
    let played := Timeline.playOut more s ((tasks name context s).map (Task.run engine context))
    ∃ w, Comes engine name context s 0 w ∧ w.Over ∧ w.now = played.1.now ∧ w.state = played.2 ∧
      ((played.1.endings 0).filterMap fun e => e.outcome.toOption).Perm w.results

section Complete

variable {s : State η} {name : String} {context : Context}

theorem mem_fittingRules {fits : Trigger → Bool} {script : Script} {r : Rule} {index : Nat} :
    (r, index) ∈ fittingRules fits script ↔ script.enabled ∧ ∃ program,
      script.program = .ok program ∧ program.rules[index]? = some r ∧ fits r.trigger := by
  unfold fittingRules
  cases he : script.enabled with
  | false => simp
  | true =>
    cases hp : script.program with
    | error e => simp
    | ok program => simp [List.mem_filter, List.mem_zipIdx_iff_getElem?]

theorem nodup_fittingRules (fits : Trigger → Bool) (script : Script) :
    ((fittingRules fits script).map Prod.snd).Nodup := by
  unfold fittingRules
  split
  · next program _ _ =>
    have hsub := (List.filter_sublist (p := fun x : Rule × Nat => fits x.1.trigger)
      (l := program.rules.zipIdx)).map Prod.snd
    rw [List.zipIdx_map_snd] at hsub
    exact hsub.nodup List.nodup_range'
  · exact List.nodup_nil

/-- The rules that an event sets off, with the keys of their scripts. -/
def fired (name : String) (context : Context) (s : State η) : List (Uuid × Script × Nat) :=
  s.scripts.rows.entries.flatMap fun (key, script) =>
    (fittingRules (fitsEvent name context) script).map fun (_, index) => (key, script, index)

theorem mem_fired {key : Uuid} {script : Script} {index : Nat} :
    (key, script, index) ∈ fired name context s ↔ Fires s name context key script index := by
  have hentry : (key, script, index) ∈ fired name context s ↔
      (key, script) ∈ s.scripts.rows.entries ∧
        ∃ r, (r, index) ∈ fittingRules (fitsEvent name context) script := by
    simp only [fired, List.mem_flatMap, List.mem_map, Prod.exists, Prod.mk.injEq]
    constructor
    · intro h
      obtain ⟨_, _, hmem, r, _, hr, rfl, rfl, rfl⟩ := h
      exact ⟨hmem, r, hr⟩
    · intro h
      obtain ⟨hmem, r, hr⟩ := h
      exact ⟨key, script, hmem, r, index, hr, rfl, rfl, rfl⟩
  rw [hentry, ← Dict.get?_eq_some_iff]
  simp only [mem_fittingRules]
  constructor
  · intro h
    obtain ⟨hstored, r, henabled, program, hprogram, hr, hfits⟩ := h
    exact ⟨hstored, henabled, program, r, hprogram, hr, hfits⟩
  · intro h
    obtain ⟨hstored, henabled, program, r, hprogram, hr, hfits⟩ := h
    exact ⟨hstored, r, henabled, program, hprogram, hr, hfits⟩

theorem nodup_fired : (fired name context s).Nodup := by
  apply List.nodup_flatMap.mpr
  constructor
  · intro entry _
    apply List.Nodup.of_map fun x : Uuid × Script × Nat => x.2.2
    rw [List.map_map]
    exact nodup_fittingRules (fitsEvent name context) entry.2
  · refine (List.pairwise_map.mp s.scripts.rows.nodup).imp fun {a b} hab => ?_
    intro x hxa hxb
    obtain ⟨_, -, rfl⟩ := List.mem_map.mp hxa
    obtain ⟨_, -, he⟩ := List.mem_map.mp hxb
    exact hab (congrArg Prod.fst he).symm

/-- The workflows that an event sets off, with their keys. -/
def started (name : String) (context : Context) (s : State η) : List (Uuid × Workflow) :=
  s.workflows.rows.entries.filter fun (_, w) => w.enabled && fitsEvent name context w.trigger

theorem mem_started {key : Uuid} {w : Workflow} :
    (key, w) ∈ started name context s ↔ Starts s name context key w := by
  rw [started, List.mem_filter, ← Dict.get?_eq_some_iff, Bool.and_eq_true]
  exact ⟨fun ⟨hstored, henabled, htrigger⟩ => ⟨hstored, henabled, htrigger⟩,
    fun h => ⟨h.stored, h.enabled, h.trigger⟩⟩

theorem filterMap_ofScript (fits : Trigger → Bool) (script : Script) :
    (Task.ofScript fits script).filterMap Task.fired? =
      (fittingRules fits script).map fun (_, index) => (script.id, index) := by
  rw [Task.ofScript, List.filterMap_map, ← List.filterMap_eq_map]
  rfl

theorem fired_tasks :
    ((tasks name context s).filterMap Task.fired?).Perm
      ((fired name context s).map fun (_, script, index) => (script.id, index)) := by
  have hworkflows : ∀ ws : List Workflow, (ws.map Task.workflow).filterMap Task.fired? = [] := by
    intro ws
    rw [List.filterMap_map]
    exact List.filterMap_eq_nil_iff.mpr fun _ _ => rfl
  have hscripts : s.scriptList.Perm (s.scripts.rows.entries.map Prod.snd) := List.mergeSort_perm _ _
  rw [tasks, Task.all, List.filterMap_append, hworkflows, List.append_nil, List.filterMap_flatMap]
  simp only [filterMap_ofScript]
  refine (hscripts.flatMap_right _).trans ?_
  rw [List.flatMap_map, fired, List.map_flatMap]
  simp only [List.map_map]
  exact .refl _

theorem started_tasks :
    ((tasks name context s).filterMap Task.workflow?).Perm
      ((started name context s).map Prod.snd) := by
  have hscripts : (s.scriptList.flatMap (Task.ofScript (fitsEvent name context))).filterMap
      Task.workflow? = [] := by
    rw [List.filterMap_flatMap]
    refine List.flatMap_eq_nil_iff.mpr fun script _ => ?_
    rw [Task.ofScript, List.filterMap_map]
    exact List.filterMap_eq_nil_iff.mpr fun _ _ => rfl
  have hworkflows : s.workflowList.Perm (s.workflows.rows.entries.map Prod.snd) :=
    List.mergeSort_perm _ _
  have hmap : ∀ ws : List Workflow, (ws.map Task.workflow).filterMap Task.workflow? = ws := by
    intro ws
    rw [List.filterMap_map]
    exact List.filterMap_some
  rw [tasks, Task.all, List.filterMap_append, hscripts, List.nil_append, hmap]
  refine (hworkflows.filter _).trans ?_
  rw [List.filter_map]
  exact .refl _

theorem nodup_started : (started name context s).Nodup :=
  s.workflows.rows.nodup_entries.filter _

theorem ne_of_nodup_filterMap {β : Type} {f : α → Option β} {l : List α} (h : (l.filterMap f).Nodup)
    {i j : Nat} {a b : α} (hi : l[i]? = some a) (hj : l[j]? = some b) (hij : i ≠ j) {x : β}
    (ha : f a = some x) : f b ≠ some x := by
  have hpairs := List.pairwise_iff_getElem.mp (List.pairwise_filterMap.mp h)
  obtain ⟨hil, rfl⟩ := List.getElem?_eq_some_iff.mp hi
  obtain ⟨hjl, rfl⟩ := List.getElem?_eq_some_iff.mp hj
  intro hb
  rcases Nat.lt_or_gt_of_ne hij with hlt | hlt
  · exact hpairs i j hil hjl hlt x ha x hb rfl
  · exact hpairs j i hjl hil hlt x hb x ha rfl

/-- No two tasks have the identifier of a lone one. -/
theorem Task.Lone.ne {a b : Task} (h : b.Lone s name context) {i j : Nat}
    (hi : (tasks name context s)[i]? = some a) (hj : (tasks name context s)[j]? = some b)
    (hij : i ≠ j) {w : Workflow} (hw : b.workflow? = some w) :
    a.workflow?.map Workflow.id ≠ some w.id := by
  have hids : ((tasks name context s).filterMap fun task => task.workflow?.map Workflow.id).Perm
      ((started name context s).map fun entry => entry.2.id) := by
    have hall := (@started_tasks _ s name context).map Workflow.id
    rw [List.map_filterMap, List.map_map] at hall
    exact hall
  -- the tasks for workflows with that identifier
  have hnodup : ((tasks name context s).filterMap fun task =>
      (task.workflow?.map Workflow.id).filter fun id => id = w.id).Nodup := by
    rw [← List.filter_filterMap, (hids.filter _).nodup_iff, List.filter_map]
    refine (nodup_started.filter _).map_on fun x hx y hy hxy => ?_
    obtain ⟨hx, hxid⟩ := List.mem_filter.mp hx
    obtain ⟨hy, hyid⟩ := List.mem_filter.mp hy
    have hx := mem_started.mp hx
    have hy := mem_started.mp hy
    have hkey := h w hw _ _ _ _ hx hy (of_decide_eq_true hxid) (of_decide_eq_true hyid)
    have hstored := hx.stored
    rw [hkey, hy.stored] at hstored
    exact Prod.ext hkey (Option.some.inj hstored).symm
  intro ha
  apply ne_of_nodup_filterMap hnodup hi hj hij (x := w.id)
  · rw [ha]
    simp
  · rw [hw]
    simp

/-- Workflows that are stored under their own identifiers run themselves. -/
theorem Complete.own {report : Report} (h : Complete s.ran? s name context report)
    (hown : ∀ key w, Starts s name context key w → w.id = key) :
    Complete (fun w => some w.id) s name context report := by
  obtain ⟨hscripts, started, hnodup, hstarted, hperm⟩ := h
  refine ⟨hscripts, started, hnodup, hstarted, hperm.trans (.of_eq ?_)⟩
  apply List.filterMap_congr
  intro (key, w) hmem
  have hstarts := (hstarted key w).mp hmem
  show s.ran? w = some w.id
  rw [State.ran?, hown key w hstarts, hstarts.stored, Option.map_some, hown key w hstarts]

end Complete

section Answers

variable {engine : Engine η} {name : String} {context : Context} {s : State η} {began : Nat}
  {w : Weave (State η) Result}

/-- Results of all tasks, in any order, make a complete report. -/
theorem complete_ofResults {results order : List Result}
    (h : List.Forall₂ (Task.Owns s) (tasks name context s) results) (ho : order.Perm results) :
    Complete s.ran? s name context (Report.ofResults order) := by
  constructor
  · refine ⟨fired name context s, nodup_fired, fun _ _ _ => mem_fired, ?_⟩
    refine ((ho.filterMap _).map _).trans ?_
    exact (List.Perm.of_eq (scriptRuns_of_owns h)).trans fired_tasks
  · refine ⟨started name context s, nodup_started, fun _ _ => mem_started, ?_⟩
    refine ((ho.filterMap _).map _).trans ((List.Perm.of_eq (executions_of_owns h)).trans ?_)
    refine (started_tasks.filterMap s.ran?).trans ?_
    rw [List.filterMap_map]
    exact .refl _

/-- A run that is the only one of its workflow ends as it would by itself. -/
theorem Comes.alone (hroom : Room (tasks name context s) s)
    (h : Comes engine name context s began w) (ho : w.Over) :
    List.Forall₂ (fun task strand => task.Functional engine s → task.Lone s name context →
      task.AsAlone engine context s began strand) (tasks name context s) w.strands := by
  have hended := @Task.ended_of_fit _ engine context s (tasks name context s)
    (fun task pauses outcome => task.Lone s name context →
      Course (task.body engine context s) pauses outcome)
    (fun task s' => task.Lone s name context → ∀ w, task.workflow? = some w →
      s'.workflows.rows.get? w.id = s.workflows.rows.get? w.id)
    (fun _ _ _ _ _ => rfl) ?_ ?_ ?_ _ _ h ho hroom
  · have hfit := (List.forall₂_and_left _ _).mpr ⟨fun task hmem => hroom.lt hmem, hended⟩
    refine hfit.imp fun task strand hreached hfunctional hlone => ?_
    obtain ⟨hcount, pauses, outcome, hc, rfl⟩ := hreached
    have halone := course_runAlone (task.body engine context s) s
    rw [← Task.runAlone_run hcount] at halone
    obtain ⟨rfl, hsame⟩ := Task.concur_body hfunctional _ _ (hc hlone) _ _ halone
    obtain ⟨result, rfl, -⟩ := Task.owns_of_course (fun _ _ => rfl) (hc hlone)
    obtain ⟨alone, hoalone, hsame⟩ := hsame.of_ok
    exact ⟨result, alone, hoalone, hsame, rfl⟩
  · intro task s' hkept pauses outcome hc hlone
    cases task with
    | rule script index r => exact hc
    | workflow w =>
      have hrow := hkept hlone w rfl
      rw [Task.body, hrow] at hc
      exact hc
  · intro i j a b ha hb hij update hcounts s' hkept hlone w hw
    have hne := hlone.ne ha hb hij hw
    exact (hcounts.get?_of_ne hne s').trans (hkept hlone w hw)
  · intro task s' s'' hs hkept hlone w hw
    rw [← hkept hlone w hw, hs.workflows]

end Answers

/-- Whatever the tables hold, however the runs take turns and whatever else is done to the state, so
long as nobody else changes the workflows or counts runs, and the counters have room for the runs
that an event starts: all of them come to an end, and they make a complete report. A run whose
handlers and behaviours are functions of their arguments comes to what it comes to by itself, after
the same time, unless another of the runs is of the same workflow. -/
theorem event_answers (engine : Engine η) (name : String) (context : Context) (s : State η)
    (hroom : Room (tasks name context s) s) : Answers engine name context s := by
  refine ⟨runAlone_occasion engine context (fitsEvent name context) s, ?_, ?_, ?_, ?_⟩
  · intro began w _
    exact ⟨w.over_or_step, wellFounded_step.apply w⟩
  · intro began w hw hover results hresults
    exact complete_ofResults (owns_results (Task.owns_of_over hw hover hroom) w.now) hresults
  · intro began w hw hover
    exact hw.alone hroom hover
  · obtain ⟨fuel, hfuel⟩ := Timeline.exists_playOut Undisturbed s
      ((tasks name context s).map (Task.run engine context))
    refine ⟨fuel, fun more hmore => ?_⟩
    obtain ⟨w, hw, hover, hnow, hstate, houtcomes⟩ := hfuel more hmore
    exact ⟨w, hw, hover, hnow, hstate, Timeline.results_perm houtcomes⟩

/-- The counters have room if none is near its end. -/
theorem room_of_runs_le {tasks : List Task} {s : State η} (most : Nat)
    (hruns : ∀ subject, s.runs subject ≤ most) (hmost : most + tasks.length < 2 ^ 64) :
    Room tasks s := by
  intro subject
  have hcount := List.countP_le_length (p := fun task : Task => task.subject = subject) (l := tasks)
  have hsubject := hruns subject
  omega

namespace Bells

/-- A bell that writes down what it is rung for. -/
def ring : Handler (List String) := fun args => do
  Routine.modify fun rung => rung ++ args.filterMap Json.text?
  return .ok .null

def engine : Engine (List String) :=
  ⟨Registry.ofList [("ring", ring)], ⟨Dict.empty, .stored, .standard⟩, Catalog.builtin, 0,
    taskCrashed⟩

/-- At noon there are two strokes a second apart, and one beside them. -/
def script : Script := Script.create ⟨1⟩ ⟨0, 0⟩ "bells"
  "on noon do ring('first') wait(1) ring('second') end on noon do ring('beside') end"

def strokes : Rule :=
  ⟨.event "noon" none, [⟨"ring", [.string "first"]⟩, ⟨"wait", [.number (.ofInt 1)]⟩,
    ⟨"ring", [.string "second"]⟩]⟩

def beside : Rule := ⟨.event "noon" none, [⟨"ring", [.string "beside"]⟩]⟩

def lamp : Workflow := Workflow.create ⟨2⟩ ⟨0, 0⟩ "lamp" (.event "noon" none)

def world : World (List String) :=
  ⟨[], 0, ⟨fun n => ⟨BitVec.ofNat 128 n⟩, 0⟩, ⟨fun n => ⟨n, 0⟩, 0⟩, ⟨fun n => n, 0⟩,
    ⟨fun n => n, 0⟩⟩

def tower : State (List String) :=
  { State.start world with
    scripts := ⟨"scripts", false, Dict.ofList [(⟨1⟩, script)]⟩
    workflows := ⟨"workflows", false, Dict.ofList [(⟨2⟩, lamp)]⟩ }

theorem tasks_tower : tasks "noon" Dict.empty tower =
    [.rule script 0 strokes, .rule script 1 beside, .workflow lamp] := by
  have hscripts : tower.scriptList = [script] := List.mergeSort_singleton _
  have hworkflows : tower.workflowList = [lamp] := List.mergeSort_singleton _
  have hprogram : script.program = .ok ⟨[strokes, beside]⟩ := by decide +kernel
  have hrules : fittingRules (fitsEvent "noon" Dict.empty) script =
      [(strokes, 0), (beside, 1)] := by
    rw [fittingRules, hprogram]
    rfl
  rw [tasks, Task.all, hscripts, hworkflows]
  simp only [Task.ofScript, List.flatMap_cons, List.flatMap_nil, hrules]
  rfl

theorem room_tower : Room (tasks "noon" Dict.empty tower) tower := by
  refine room_of_runs_le 0 (fun subject => Nat.le_of_eq ?_) (by rw [tasks_tower]; decide)
  cases subject with
  | script id =>
    cases hrow : tower.scripts.rows.get? id with
    | none => simp only [State.runs, State.runs?, hrow]; rfl
    | some row =>
      obtain ⟨-, rfl⟩ := Prod.mk.inj (List.mem_singleton.mp (Dict.mem_of_get?_ofList hrow))
      simp only [State.runs, State.runs?, hrow]; rfl
  | workflow id =>
    cases hrow : tower.workflows.rows.get? id with
    | none => simp only [State.runs, State.runs?, hrow]; rfl
    | some row =>
      obtain ⟨-, rfl⟩ := Prod.mk.inj (List.mem_singleton.mp (Dict.mem_of_get?_ofList hrow))
      simp only [State.runs, State.runs?, hrow]; rfl

theorem functional_ring : engine.registry.Functional := by
  intro name handler h args
  obtain ⟨-, rfl⟩ := Prod.mk.inj (List.mem_singleton.mp (Dict.mem_of_get?_ofList h))
  exact concur_commit fun _ _ => concur_pure rfl

/-- Nothing stands in the way of any of the three. -/
theorem functional_tasks : ∀ task ∈ tasks "noon" Dict.empty tower,
    task.Functional engine tower ∧ task.Lone tower "noon" Dict.empty := by
  have hlamp : ∀ key w, tower.workflows.rows.get? key = some w → key = ⟨2⟩ ∧ w = lamp :=
    fun key w h => Prod.mk.inj (List.mem_singleton.mp (Dict.mem_of_get?_ofList h))
  have hrule : ∀ index r, (Task.rule script index r).Functional engine tower ∧
      (Task.rule script index r).Lone tower "noon" Dict.empty :=
    fun index r => ⟨fun action _ _ => functional_ring action.command, nofun⟩
  rw [tasks_tower]
  refine List.forall_mem_cons.mpr ⟨hrule 0 strokes, List.forall_mem_cons.mpr ⟨hrule 1 beside,
    List.forall_mem_singleton.mpr ⟨fun row hrow => ?_, ?_⟩⟩⟩
  · obtain ⟨-, rfl⟩ := hlamp _ _ hrow
    exact List.forall_mem_nil _
  · intro w _ key other second third hsecond hthird _ _
    exact (hlamp _ _ hsecond.stored).1.trans (hlamp _ _ hthird.stored).1.symm

/-- What a run that waits goes on with. -/
def rest : Standing (State (List String)) Result → Routine (State (List String)) Result
  | .waiting _ later => later
  | .finished result => .done result
  | .crashed message => .crash message

def pause? : Standing (State (List String)) Result → Option Duration
  | .waiting length _ => some length
  | _ => none

theorem eq_of_pause? {standing : Standing (State (List String)) Result} {length : Duration}
    (h : pause? standing = some length) : standing = .waiting length (rest standing) := by
  cases standing with
  | waiting other later =>
    obtain rfl := Option.some.inj h
    rfl
  | finished result => cases h
  | crashed message => cases h

def runStrokes : Routine (State (List String)) Result :=
  engine.superviseRule ⟨1⟩ 0 strokes Dict.empty

def runBeside : Routine (State (List String)) Result :=
  engine.superviseRule ⟨1⟩ 1 beside Dict.empty

def runLamp : Routine (State (List String)) Result := engine.runWorkflow ⟨2⟩ Dict.empty

/-- The first stroke is done. -/
def struck : State (List String) := (runStrokes.advance tower).2

/-- The bell has been rung beside the strokes. -/
def rung : State (List String) := (runBeside.advance struck).2

/-- The lamp has been lit. -/
def lit : State (List String) := (runLamp.advance rung).2

/-- What is left of the strokes. -/
def second : Routine (State (List String)) Result := rest (runStrokes.advance tower).1

/-- Everything is over. -/
def quiet : State (List String) := (second.advance lit).2

/-- The other two have their turns while the strokes wait. -/
theorem comes_tower : ∃ w, Comes engine "noon" Dict.empty tower 0 w ∧ w.Over ∧ w.now = 1000 ∧
    w.state = quiet := by
  have hwaits : ∀ w : Weave (State (List String)) Result, w.Waits 0 :=
    fun _ due _ _ => Nat.zero_le due
  have hpause : runStrokes.advance tower = (.waiting (.ofSeconds 1) second, struck) :=
    Prod.ext (eq_of_pause? (by decide +kernel)) (by rw [struck])
  obtain ⟨beside, hbeside⟩ := @Standing.exists_finished _ _ (runBeside.advance struck).1
    (by decide +kernel)
  obtain ⟨lamp, hlamp⟩ := @Standing.exists_finished _ _ (runLamp.advance rung).1
    (by decide +kernel)
  obtain ⟨strokes, hstrokes⟩ := @Standing.exists_finished _ _ (second.advance lit).1
    (by decide +kernel)
  have hfirst := @steps_standing _ _ runStrokes tower _ _ 0 0 0
    [.underway 0 runStrokes, .underway 0 runBeside, .underway 0 runLamp] rfl (hwaits _) le_rfl
    hpause
  have hnext := @steps_standing _ _ runBeside struck rung _ 0 0 1
    [.underway 1000 second, .underway 0 runBeside, .underway 0 runLamp] rfl (hwaits _) le_rfl
    (Prod.ext hbeside (by rw [rung]))
  have hthen := @steps_standing _ _ runLamp rung lit _ 0 0 2
    [.underway 1000 second, .ended 0 (.ok beside), .underway 0 runLamp] rfl (hwaits _) le_rfl
    (Prod.ext hlamp (by rw [lit]))
  have hlater : Waits ⟨0, lit, [.underway 1000 second, .ended 0 (.ok beside),
      .ended 0 (.ok lamp)]⟩ 1000 := by
    intro due later hmem
    simp only [List.mem_cons, Strand.underway.injEq, reduceCtorEq, List.not_mem_nil, or_false]
      at hmem
    exact hmem.1.ge
  have hlast := @steps_standing _ _ second lit quiet _ 0 1000 0
    [.underway 1000 second, .ended 0 (.ok beside), .ended 0 (.ok lamp)] rfl hlater
    (Nat.zero_le _) (Prod.ext hstrokes (by rw [quiet]))
  refine ⟨⟨1000, quiet, [.ended 1000 (.ok strokes), .ended 0 (.ok beside),
    .ended 0 (.ok lamp)]⟩, ?_, ?_, rfl, by dsimp only⟩
  · rw [Comes, tasks_tower]
    exact Reaches.refl.steps (hfirst.trans (hnext.trans (hthen.trans hlast))).to_reflTransGen
  · exact List.forall_mem_cons.mpr ⟨⟨_, _, rfl⟩, List.forall_mem_cons.mpr ⟨⟨_, _, rfl⟩,
      List.forall_mem_singleton.mpr ⟨_, _, rfl⟩⟩⟩

/-- The bell is rung for the second rule while the first one waits; all three runs are reported, and
each has come to what it comes to by itself. -/
theorem event_answers_bells : Room (tasks "noon" Dict.empty tower) tower ∧
    ∃ w, Comes engine "noon" Dict.empty tower 0 w ∧ w.Over ∧ w.now = 1000 ∧
      w.state.world.handlers = ["first", "beside", "second"] ∧
      Complete tower.ran? tower "noon" Dict.empty (Report.ofResults w.results) ∧
      List.Forall₂ (Task.AsAlone engine Dict.empty tower 0)
        [.rule script 0 strokes, .rule script 1 beside, .workflow lamp] w.strands := by
  obtain ⟨w, hw, hover, hnow, hstate⟩ := comes_tower
  have hanswers := event_answers engine "noon" Dict.empty tower room_tower
  have halone := (List.forall₂_and_left _ _).mpr ⟨functional_tasks, hanswers.alone 0 w hw hover⟩
  refine ⟨room_tower, w, hw, hover, hnow, ?_, hanswers.complete 0 w hw hover _ (.refl _), ?_⟩
  · rw [hstate]
    decide +kernel
  · rw [← tasks_tower]
    exact halone.imp fun task strand h => h.2 h.1.1 h.1.2

end Bells

namespace Misplaced

/-- A behaviour that works once: it sets a variable, and fails if that was set before. -/
def once : Behavior Unit := fun _ =>
  .commit (fun scope => (scope.1, scope.2.insert "seen" .null)) fun scope =>
    .done (if scope.2.contains "seen" then .error (.fatal "again") else .ok .null)

/-- A behaviour that never works. -/
def broken : Behavior Unit := fun _ => .crash "out of order"

def engine : Engine Unit :=
  ⟨Registry.empty, ⟨Dict.ofList [("once", once), ("broken", broken)], .stored, .standard⟩,
    Catalog.builtin, 0, taskCrashed⟩

def greeter : Workflow := Workflow.create ⟨3⟩ ⟨0, 0⟩ "greeter" (.event "raid" none)

/-- A workflow of one node. -/
def single (id : Uuid) (template : String) : Workflow :=
  (Workflow.create id ⟨0, 0⟩ template (.event "raid" none)).addNode
    ⟨"n", template, "n", Point.origin, .null, true⟩

def world : World Unit :=
  ⟨(), 0, ⟨fun n => ⟨BitVec.ofNat 128 n⟩, 0⟩, ⟨fun n => ⟨n, 0⟩, 0⟩, ⟨fun n => n, 0⟩,
    ⟨fun n => n, 0⟩⟩

/-- One workflow is stored under another identifier than its own, and one under two; two are where
they belong, and crash. -/
def tables : State Unit := { State.start world with
  workflows := ⟨"workflows", false, Dict.ofList [(⟨1⟩, greeter), (⟨2⟩, single ⟨2⟩ "once"),
    (⟨4⟩, single ⟨2⟩ "once"), (⟨5⟩, single ⟨5⟩ "broken"), (⟨6⟩, single ⟨6⟩ "broken")]⟩ }

theorem tasks_tables : tasks "raid" Dict.empty tables =
    [.workflow greeter, .workflow (single ⟨2⟩ "once"), .workflow (single ⟨2⟩ "once"),
      .workflow (single ⟨5⟩ "broken"), .workflow (single ⟨6⟩ "broken")] := by
  have hscripts : tables.scriptList = [] := List.mergeSort_nil
  have hworkflows : tables.workflowList = [greeter, single ⟨2⟩ "once", single ⟨2⟩ "once",
      single ⟨5⟩ "broken", single ⟨6⟩ "broken"] := List.mergeSort_of_pairwise (by decide)
  rw [tasks, Task.all, hscripts, hworkflows]
  rfl

/-- The workflow of a run that has ended, how it ended, and why. -/
def ending? : Standing (State Unit) Result → Option (Uuid × Execution.Status × Option String)
  | .finished (.workflow e) => some (e.workflowId, e.status, e.error)
  | _ => none

/-- A run of a workflow, and what is left of it. -/
structure RunsTo (id : Uuid) (status : Execution.Status) (error : Option String) (s s' : State Unit)
    (e : Execution) : Prop where
  run : (engine.runWorkflow id Dict.empty).advance s = (.finished (.workflow e), s')
  workflowId : e.workflowId = id
  status : e.status = status
  error : e.error = error

theorem exists_runsTo {id : Uuid} {status : Execution.Status} {error : Option String}
    {s : State Unit} (h : ending? ((engine.runWorkflow id Dict.empty).advance s).1 =
      some (id, status, error)) :
    ∃ e, RunsTo id status error s ((engine.runWorkflow id Dict.empty).advance s).2 e := by
  generalize hadvance : (engine.runWorkflow id Dict.empty).advance s = advanced at h
  obtain ⟨standing, s'⟩ := advanced
  cases standing with
  | finished result => cases result with
    | workflow e =>
      obtain ⟨hid, hrest⟩ := Prod.mk.inj (Option.some.inj h)
      obtain ⟨hstatus, herror⟩ := Prod.mk.inj hrest
      exact ⟨e, hadvance, hid, hstatus, herror⟩
    | script run => cases h
    | nothing => cases h
  | crashed message => cases h
  | waiting length rest => cases h

/-- What is said of a run that crashed, with the number of its task. -/
def reason (task : Nat) : Option String :=
  some ("execution aborted: " ++ taskCrashed task "out of order")

/-- The state after the first run of a workflow, after the second one, and so on. -/
def after : Nat → State Unit
  | 0 => tables
  | n + 1 => ((engine.runWorkflow ([⟨2⟩, ⟨2⟩, ⟨5⟩, ⟨6⟩].getD n ⟨0⟩) Dict.empty).advance (after n)).2

/-- Of two runs of one workflow the second finds the variables that the first has left. Of two runs
that crash the second has another task than it would have by itself. -/
theorem runsTo_after : ∃ e f g h alone, RunsTo ⟨2⟩ .completed none tables (after 1) e ∧
    RunsTo ⟨2⟩ .failed (some "node 'n' failed fatally: again") (after 1) (after 2) f ∧
    RunsTo ⟨5⟩ .failed (reason 0) (after 2) (after 3) g ∧
    RunsTo ⟨6⟩ .failed (reason 1) (after 3) (after 4) h ∧
    RunsTo ⟨6⟩ .failed (reason 0) tables
      ((engine.runWorkflow ⟨6⟩ Dict.empty).advance tables).2 alone := by
  obtain ⟨e, he⟩ := @exists_runsTo ⟨2⟩ .completed none tables (by decide +kernel)
  obtain ⟨f, hf⟩ := @exists_runsTo ⟨2⟩ .failed (some "node 'n' failed fatally: again") (after 1)
    (by decide +kernel)
  obtain ⟨g, hg⟩ := @exists_runsTo ⟨5⟩ .failed (reason 0) (after 2) (by decide +kernel)
  obtain ⟨h, hh⟩ := @exists_runsTo ⟨6⟩ .failed (reason 1) (after 3) (by decide +kernel)
  obtain ⟨alone, halone⟩ := @exists_runsTo ⟨6⟩ .failed (reason 0) tables (by decide +kernel)
  exact ⟨e, f, g, h, alone, he, hf, hg, hh, halone⟩

theorem functional_behaviors {template : String} {behavior : Behavior Unit}
    (h : engine.runner.behaviors.get? template = some behavior) : behavior.Functional := by
  intro config vars
  rcases List.mem_pair.mp (Dict.mem_of_get?_ofList h) with he | he
  · obtain ⟨-, rfl⟩ := Prod.mk.inj he
    exact concur_commit fun _ _ => concur_pure rfl
  · obtain ⟨-, rfl⟩ := Prod.mk.inj he
    exact concur_crash "out of order"

/-- The runs take turns in the order in which they started. -/
theorem comes_tables {e f g h : Execution}
    (he : RunsTo ⟨2⟩ .completed none tables (after 1) e)
    (hf : RunsTo ⟨2⟩ .failed (some "node 'n' failed fatally: again") (after 1) (after 2) f)
    (hg : RunsTo ⟨5⟩ .failed (reason 0) (after 2) (after 3) g)
    (hh : RunsTo ⟨6⟩ .failed (reason 1) (after 3) (after 4) h) :
    Comes engine "raid" Dict.empty tables 0 ⟨0, after 4, [.ended 0 (.ok .nothing),
      .ended 0 (.ok (.workflow e)), .ended 0 (.ok (.workflow f)), .ended 0 (.ok (.workflow g)),
      .ended 0 (.ok (.workflow h))]⟩ := by
  let run (id : Uuid) := engine.runWorkflow id Dict.empty
  let going (id : Uuid) : Strand (State Unit) Result := .underway 0 (run id)
  let ended (result : Result) : Strand (State Unit) Result := .ended 0 (.ok result)
  have hlost : (run ⟨3⟩).advance tables = (.finished .nothing, tables) := rfl
  have hwaits : ∀ w : Weave (State Unit) Result, w.Waits 0 := fun _ due _ _ => Nat.zero_le due
  have hstart : Weave.start 0 tables
      ((tasks "raid" Dict.empty tables).map (Task.run engine Dict.empty)) =
      ⟨0, tables, [going ⟨3⟩, going ⟨2⟩, going ⟨2⟩, going ⟨5⟩, going ⟨6⟩]⟩ := by
    rw [tasks_tables]
    rfl
  have hfirst := @steps_finished _ _ _ _ _ _ _ 0
    [going ⟨3⟩, going ⟨2⟩, going ⟨2⟩, going ⟨5⟩, going ⟨6⟩] rfl (hwaits _) hlost
  have hsecond := @steps_finished _ _ _ _ _ _ _ 1
    [ended .nothing, going ⟨2⟩, going ⟨2⟩, going ⟨5⟩, going ⟨6⟩] rfl (hwaits _) he.run
  have hthird := @steps_finished _ _ _ _ _ _ _ 2
    [ended .nothing, ended (.workflow e), going ⟨2⟩, going ⟨5⟩, going ⟨6⟩] rfl (hwaits _) hf.run
  have hfourth := @steps_finished _ _ _ _ _ _ _ 3
    [ended .nothing, ended (.workflow e), ended (.workflow f), going ⟨5⟩, going ⟨6⟩] rfl (hwaits _)
    hg.run
  have hlast := @steps_finished _ _ _ _ _ _ _ 4
    [ended .nothing, ended (.workflow e), ended (.workflow f), ended (.workflow g), going ⟨6⟩] rfl
    (hwaits _) hh.run
  rw [Comes, hstart]
  exact Reaches.refl.steps (hfirst.trans (hsecond.trans (hthird.trans (hfourth.trans
    hlast)))).to_reflTransGen

/-- A workflow that is stored under another identifier than its own is set off but not found. One
that is stored under two runs twice, and the second run finds the variables that the first has
left. A run that crashes beside another one that did says so with another number than by itself. -/
theorem not_complete_not_asAlone :
    engine.registry.Functional ∧ (∀ template behavior,
      engine.runner.behaviors.get? template = some behavior → behavior.Functional) ∧
      ∃ w, Comes engine "raid" Dict.empty tables 0 w ∧ w.Over ∧
        ¬ Complete (fun w => some w.id) tables "raid" Dict.empty (Report.ofResults w.results) ∧
        ¬ List.Forall₂ (Task.AsAlone engine Dict.empty tables 0) (tasks "raid" Dict.empty tables)
          w.strands ∧
        ∃ e alone, w.strands[4]? = some (.ended 0 (.ok (.workflow e))) ∧
          ((engine.runWorkflow ⟨6⟩ Dict.empty).runAlone tables).outcome = .ok (.workflow alone) ∧
          e.error ≠ alone.error := by
  have hregistry : engine.registry.Functional := by
    intro name handler hget
    cases hget
  obtain ⟨e, f, g, h, alone, he, hf, hg, hh, halone⟩ := runsTo_after
  refine ⟨hregistry, fun _ _ => functional_behaviors, _, comes_tables he hf hg hh, ?_, ?_, ?_,
    h, alone, rfl, outcome_of_finished (congrArg Prod.fst halone.run), ?_⟩
  · simp only [Over, List.forall_mem_cons, List.not_mem_nil, false_implies, implies_true, and_true]
    exact ⟨⟨0, _, rfl⟩, ⟨0, _, rfl⟩, ⟨0, _, rfl⟩, ⟨0, _, rfl⟩, ⟨0, _, rfl⟩⟩
  · intro hcomplete
    obtain ⟨started, -, hstarted, hreported⟩ := hcomplete.workflows
    have hgreeter : (⟨1⟩, greeter) ∈ started := (hstarted _ _).mpr ⟨by rfl, rfl, by decide⟩
    have hmem : greeter.id ∈ [e.workflowId, f.workflowId, g.workflowId, h.workflowId] :=
      hreported.mem_iff.mpr (List.mem_filterMap.mpr ⟨_, hgreeter, rfl⟩)
    rw [he.workflowId, hf.workflowId, hg.workflowId, hh.workflowId] at hmem
    exact absurd hmem (by decide)
  · intro hall
    rw [tasks_tables] at hall
    obtain ⟨result, alone, hown, hsame, hstrand⟩ := (List.forall₂_cons.mp (List.forall₂_cons.mp
      (List.forall₂_cons.mp hall).2).2).1
    have hoalone : ((engine.runWorkflow ⟨2⟩ Dict.empty).runAlone tables).outcome =
        .ok (.workflow e) := outcome_of_finished (congrArg Prod.fst he.run)
    obtain rfl := Except.ok.inj (hown.symm.trans hoalone)
    injection hstrand with _ hresult
    obtain rfl := Except.ok.inj hresult
    cases hsame with
    | workflow hsame =>
      have hstatus := hsame.status
      rw [he.status, hf.status] at hstatus
      cases hstatus
  · rw [hh.error, halone.error]
    decide +kernel

end Misplaced

end Automation.Engine
