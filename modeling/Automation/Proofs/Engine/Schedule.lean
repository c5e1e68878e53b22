import Automation.Proofs.Engine.Graphs
import Automation.Proofs.Engine.Task

/-!
# Schedules

Whoever waits for a schedule is listed under its expression, for a timer outside to announce. When
an expression is announced, the owners start that are listed under it without the blanks around it.
So the owners that are listed under an expression are started by it exactly if it has no such
blanks.
-/
namespace Automation.Engine

open Routine Weave

variable {η : Type}

/-- The schedules that are listed. -/
def announced (s : State η) : List ScheduleEntry :=
  s.scriptList.flatMap scriptSchedules ++ s.workflowList.filterMap workflowSchedule?

/-- The owners that are listed under an expression. -/
def ownersOf (expression : String) (entries : List ScheduleEntry) : List ScheduleOwner :=
  (entries.filter fun entry => entry.expression = expression).map ScheduleEntry.owner

/-- The owners that a report has runs of. -/
def Report.owners (report : Report) : List ScheduleOwner :=
  report.scriptRuns.map (fun run => .script run.scriptId run.ruleIndex) ++
    report.executions.map fun e => .workflow e.workflowId

/-- Who a task is run for. -/
def Task.owner : Task → ScheduleOwner
  | rule script index _ => .script script.id index
  | workflow w => .workflow w.id

/-- The triggers that wait for a schedule. -/
def fitsSchedule (expression : String) (trigger : Trigger) : Bool :=
  trigger.matchesSchedule expression

/-- What an announced expression sets off. -/
def due (expression : String) (s : State η) : List Task :=
  Task.all (fitsSchedule (Text.trim expression)) s

theorem runAlone_fireSchedule (engine : Engine η) (expression : String) (context : Context)
    (s : State η) :
    (engine.fireSchedule expression context).runAlone s =
      ⟨.ok ((due expression s).map (Task.run engine context)), s, []⟩ :=
  runAlone_occasion engine context (fitsSchedule (Text.trim expression)) s

section Listed

/-- An entry is listed under its own expression. -/
theorem owner_of_expression (expression : String) (owner : ScheduleOwner) (o : Option String) :
    ((o.map fun announced => (⟨owner, announced⟩ : ScheduleEntry)).filter
      fun entry => entry.expression = expression).map ScheduleEntry.owner =
      if o == some expression then some owner else none := by
  cases o with
  | none => rfl
  | some other =>
    by_cases h : other = expression
    · simp [h]
    · simp [h]

theorem map_filter_eq_filterMap {α β : Type} (p : α → Bool) (f : α → β) (l : List α) :
    (l.filter p).map f = l.filterMap fun a => if p a then some (f a) else none := by
  induction l with
  | nil => rfl
  | cons a l ih =>
    cases h : p a with
    | true => simp [h, ih]
    | false => simp [h, ih]

theorem ownersOf_scriptSchedules (expression : String) (script : Script) :
    ownersOf expression (scriptSchedules script) =
      (Task.ofScript (fitsSchedule expression) script).map Task.owner := by
  unfold scriptSchedules Task.ofScript fittingRules
  split
  · next program _ _ =>
    rw [ownersOf, List.filter_filterMap, List.map_filterMap, List.map_map,
      map_filter_eq_filterMap]
    exact List.filterMap_congr fun rule _ => owner_of_expression expression _ _
  · rfl

theorem ownersOf_workflowSchedules (expression : String) (ws : List Workflow) :
    ownersOf expression (ws.filterMap workflowSchedule?) =
      ((ws.filter fun w => w.enabled && fitsSchedule expression w.trigger).map Task.workflow).map
        Task.owner := by
  rw [ownersOf, List.filter_filterMap, List.map_filterMap, List.map_map, map_filter_eq_filterMap]
  refine List.filterMap_congr fun w _ => ?_
  cases henabled : w.enabled with
  | true =>
    rw [workflowSchedule?, if_pos henabled]
    exact owner_of_expression expression _ _
  | false =>
    rw [workflowSchedule?, if_neg (by rw [henabled]; decide)]
    rfl

/-- The owners listed under an expression are those of the tasks that wait for it. -/
theorem ownersOf_announced (expression : String) (s : State η) :
    ownersOf expression (announced s) =
      (Task.all (fitsSchedule expression) s).map Task.owner := by
  rw [Task.all, List.map_append, ← ownersOf_workflowSchedules, List.map_flatMap]
  simp only [← ownersOf_scriptSchedules]
  simp only [ownersOf, announced, List.filter_append, List.map_append, List.filter_flatMap,
    List.map_flatMap]

end Listed

section Started

variable {s : State η}

/-- Rows that are stored under their own identifiers run for themselves, each once. -/
theorem owners_of_owns {tasks : List Task} {results : List Result}
    (h : List.Forall₂ (Task.Owns s) tasks results)
    (hran : ∀ w, Task.workflow w ∈ tasks → s.ran? w = some w.id) :
    (Report.ofResults results).owners.Perm (tasks.map Task.owner) := by
  induction h with
  | nil => exact .refl _
  | cons howns hrest ih =>
    have hlater := ih fun w hw => hran w (List.mem_cons_of_mem _ hw)
    cases howns with
    | rule outcome => exact hlater.cons _
    | @workflow w e h =>
      obtain hid : w.id = e.workflowId :=
        Option.some.inj ((hran w List.mem_cons_self).symm.trans h)
      -- the execution stands after the runs of all scripts
      have hmiddle := List.perm_middle.trans (hlater.cons (Task.workflow w).owner)
      rw [Task.owner, hid] at hmiddle
      rw [List.map_cons, Task.owner, hid]
      exact hmiddle
    | missing h =>
      rw [hran _ List.mem_cons_self] at h
      cases h

theorem owners_perm {results order : List Result} (h : order.Perm results) :
    (Report.ofResults order).owners.Perm (Report.ofResults results).owners :=
  ((h.filterMap _).map _).append ((h.filterMap _).map _)

end Started

section Owner

variable {s : State η}

theorem mem_scriptSchedules {script : Script} {entry : ScheduleEntry} :
    entry ∈ scriptSchedules script ↔ ∃ program index r, script.enabled = true ∧
      script.program = .ok program ∧ program.rules[index]? = some r ∧
      entry.owner = .script script.id index ∧
      r.trigger.scheduleExpression? = some entry.expression := by
  obtain ⟨owner, expression⟩ := entry
  unfold scriptSchedules
  cases henabled : script.enabled with
  | false => simp
  | true =>
    cases hprogram : script.program with
    | error e => simp
    | ok program =>
      simp only [List.mem_filterMap, Prod.exists, List.mem_zipIdx_iff_getElem?,
        Option.map_eq_some_iff, ScheduleEntry.mk.injEq, Except.ok.injEq]
      constructor
      · rintro ⟨r, index, hr, _, hexpression, howner, rfl⟩
        exact ⟨program, index, r, trivial, rfl, hr, howner.symm, hexpression⟩
      · rintro ⟨_, index, r, -, rfl, hr, howner, hexpression⟩
        exact ⟨r, index, hr, expression, hexpression, howner.symm, rfl⟩

theorem workflowSchedule?_eq_some_iff {w : Workflow} {entry : ScheduleEntry} :
    workflowSchedule? w = some entry ↔ w.enabled = true ∧ entry.owner = .workflow w.id ∧
      w.trigger.scheduleExpression? = some entry.expression := by
  obtain ⟨owner, expression⟩ := entry
  unfold workflowSchedule?
  cases henabled : w.enabled with
  | false => simp
  | true =>
    simp only [if_pos, Option.map_eq_some_iff, ScheduleEntry.mk.injEq]
    constructor
    · rintro ⟨_, hexpression, howner, rfl⟩
      exact ⟨trivial, howner.symm, hexpression⟩
    · rintro ⟨-, howner, hexpression⟩
      exact ⟨expression, hexpression, howner.symm, rfl⟩

theorem get?_of_mem_list {α : Type} {table : Table α} {idOf : α → Uuid} (h : table.Filed idOf)
    {row : α} (hmem : row ∈ table.list) : table.rows.get? (idOf row) = some row := by
  obtain ⟨⟨key, _⟩, hentry, rfl⟩ := List.mem_map.mp hmem
  have hstored := Dict.get?_eq_some_iff.mpr hentry
  rwa [h key _ hstored]

theorem eq_of_mem_list {α : Type} {table : Table α} {idOf : α → Uuid} (h : table.Filed idOf)
    {a b : α} (ha : a ∈ table.list) (hb : b ∈ table.list) (hid : idOf a = idOf b) : a = b := by
  have hstored := get?_of_mem_list h ha
  rw [hid, get?_of_mem_list h hb] at hstored
  exact (Option.some.inj hstored).symm

/-- Rows that are stored under their own identifiers are listed under one expression each. -/
theorem expression_of_owner (h : s.Filed) {a b : ScheduleEntry} (ha : a ∈ announced s)
    (hb : b ∈ announced s) (ho : a.owner = b.owner) : a.expression = b.expression := by
  rcases List.mem_append.mp ha with ha | ha <;> rcases List.mem_append.mp hb with hb | hb
  -- the owner tells the script and the rule, and these tell the expression
  · obtain ⟨script, hscript, ha⟩ := List.mem_flatMap.mp ha
    obtain ⟨other, hother, hb⟩ := List.mem_flatMap.mp hb
    obtain ⟨program, index, r, -, hprogram, hr, howner, hexpression⟩ := mem_scriptSchedules.mp ha
    obtain ⟨_, _, _, -, hprogram', hr', howner', hexpression'⟩ := mem_scriptSchedules.mp hb
    rw [howner, howner'] at ho
    obtain ⟨hid, rfl⟩ := ScheduleOwner.script.inj ho
    obtain rfl := eq_of_mem_list h.scripts (List.mem_mergeSort.mp hscript)
      (List.mem_mergeSort.mp hother) hid
    obtain rfl := Except.ok.inj (hprogram.symm.trans hprogram')
    obtain rfl := Option.some.inj (hr.symm.trans hr')
    exact Option.some.inj (hexpression.symm.trans hexpression')
  · obtain ⟨script, -, ha⟩ := List.mem_flatMap.mp ha
    obtain ⟨w, -, hb⟩ := List.mem_filterMap.mp hb
    obtain ⟨_, _, _, -, -, -, howner, -⟩ := mem_scriptSchedules.mp ha
    obtain ⟨-, howner', -⟩ := workflowSchedule?_eq_some_iff.mp hb
    rw [howner, howner'] at ho
    cases ho
  · obtain ⟨w, -, ha⟩ := List.mem_filterMap.mp ha
    obtain ⟨script, -, hb⟩ := List.mem_flatMap.mp hb
    obtain ⟨-, howner, -⟩ := workflowSchedule?_eq_some_iff.mp ha
    obtain ⟨_, _, _, -, -, -, howner', -⟩ := mem_scriptSchedules.mp hb
    rw [howner, howner'] at ho
    cases ho
  · obtain ⟨w, hw, ha⟩ := List.mem_filterMap.mp ha
    obtain ⟨other, hother, hb⟩ := List.mem_filterMap.mp hb
    obtain ⟨-, howner, hexpression⟩ := workflowSchedule?_eq_some_iff.mp ha
    obtain ⟨-, howner', hexpression'⟩ := workflowSchedule?_eq_some_iff.mp hb
    rw [howner, howner'] at ho
    obtain rfl := eq_of_mem_list h.workflows (List.mem_mergeSort.mp hw)
      (List.mem_mergeSort.mp hother) (ScheduleOwner.workflow.inj ho)
    exact Option.some.inj (hexpression.symm.trans hexpression')

end Owner

/-- What can come of the runs that an announced expression starts at a time, while nobody else
changes the workflows or counts runs. -/
def Follows (engine : Engine η) (expression : String) (context : Context) (s : State η)
    (began : Nat) (w : Weave (State η) Result) : Prop :=
  Reaches Undisturbed
    (Weave.start began s ((due expression s).map (Task.run engine context))) w

/-- An expression starts the owners that are listed under it and no others: however their runs take
turns, they come to an end, and if the counters have room for them, the report has one run of each
of these owners. -/
structure StartsListed (engine : Engine η) (expression : String) (context : Context)
    (s : State η) : Prop where
  lists : schedules.runAlone s = ⟨.ok (announced s), s, []⟩
  starts : (engine.fireSchedule expression context).runAlone s =
    ⟨.ok ((due expression s).map (Task.run engine context)), s, []⟩
  owners : ((due expression s).map Task.owner).Perm (ownersOf expression (announced s))
  /-- There is no end of turns before all runs have ended, and there are only finitely many. -/
  ends : ∀ began w, Follows engine expression context s began w →
    (w.Over ∨ ∃ next, Weave.Step w next) ∧ Acc (fun next w => Weave.Step w next) w
  reported : Room (due expression s) s → ∀ began w, Follows engine expression context s began w →
    w.Over → ∀ results, results.Perm w.results →
      (Report.ofResults results).owners.Perm (ownersOf expression (announced s))

/-- What an announced expression starts are the owners listed under it without the blanks around
it. -/
theorem owners_due (expression : String) (s : State η) :
    (due expression s).map Task.owner = ownersOf (Text.trim expression) (announced s) :=
  (ownersOf_announced (Text.trim expression) s).symm

/-- What is reported are the owners that an announced expression starts. -/
theorem reported_owners {engine : Engine η} {expression : String} {context : Context} {s : State η}
    (hs : s.Filed) (hroom : Room (due expression s) s) {began : Nat} {w : Weave (State η) Result}
    (h : Follows engine expression context s began w) (ho : w.Over) {results : List Result}
    (hr : results.Perm w.results) :
    (Report.ofResults results).owners.Perm ((due expression s).map Task.owner) := by
  have howns := owns_results (Task.owns_of_over h ho hroom) w.now
  refine (owners_perm hr).trans (owners_of_owns howns ?_)
  intro row hrow
  have hlisted : row ∈ s.workflowList := by
    rcases List.mem_append.mp hrow with hrow | hrow
    · obtain ⟨script, -, hrow⟩ := List.mem_flatMap.mp hrow
      obtain ⟨rule, -, hrow⟩ := List.mem_map.mp hrow
      cases hrow
    · obtain ⟨other, hother, he⟩ := List.mem_map.mp hrow
      obtain rfl := Task.workflow.inj he
      exact (List.mem_filter.mp hother).1
  rw [State.ran?, get?_of_mem_list hs.workflows (List.mem_mergeSort.mp hlisted)]
  rfl

/-- In any state that a session can reach, an expression that is listed starts exactly the owners
listed under it if there are no blanks around it, and only then. -/
theorem Session.startsListed_iff {engine : Engine η} {s : State η} (hs : s.Filed) {t : Session η}
    (ht : Session.Reaches engine s t) {expression : String}
    (hlisted : expression ∈ (announced t.state).map ScheduleEntry.expression) (context : Context) :
    StartsListed engine expression context t.state ↔ Text.trim expression = expression := by
  have hfiled := ht.filed hs
  constructor
  · intro h
    obtain ⟨entry, hentry, rfl⟩ := List.mem_map.mp hlisted
    -- an owner that is listed is started, so it is listed without the blanks too
    have howners := h.owners
    rw [owners_due] at howners
    have hmem : entry.owner ∈ ownersOf entry.expression (announced t.state) :=
      List.mem_map_of_mem (List.mem_filter.mpr ⟨hentry, decide_eq_true rfl⟩)
    obtain ⟨other, hother, howner⟩ := List.mem_map.mp (howners.mem_iff.mpr hmem)
    obtain ⟨hother, hexpression⟩ := List.mem_filter.mp hother
    rw [← of_decide_eq_true hexpression]
    exact expression_of_owner hfiled hother hentry howner
  · intro htrim
    have howners : (due expression t.state).map Task.owner =
        ownersOf expression (announced t.state) := by rw [owners_due, htrim]
    refine ⟨rfl, runAlone_fireSchedule engine expression context t.state, .of_eq howners, ?_, ?_⟩
    · intro began w _
      exact ⟨w.over_or_step, wellFounded_step.apply w⟩
    · intro hroom began w hw hover results hresults
      exact (reported_owners hfiled hroom hw hover hresults).trans (.of_eq howners)

namespace Session.Padded

/-- A workflow has been made that waits for a schedule with blanks around it. -/
def made : Session Unit :=
  (((start (State.start Lamp.world)).afterCall Lamp.engine
    (.createWorkflow "pad" none (.schedule " 1 hour "))).afterTurn 0).afterTurn 0

theorem announced_made : announced made.state = [⟨.workflow ⟨0⟩, " 1 hour "⟩] := by
  have hscripts : made.state.scriptList = [] := List.mergeSort_nil
  have hworkflows : made.state.workflowList = made.state.workflows.list :=
    List.mergeSort_singleton _
  rw [announced, hscripts, hworkflows]
  rfl

theorem reaches_made : Reaches Lamp.engine (State.start Lamp.world) made :=
  ReachesFresh.reaches
    (((ReachesFresh.call .refl _).turn 0 ⟨by decide, by decide⟩).turn 0 ⟨by decide, by decide⟩)

/-- The workflow is listed, and what is listed does not start it. -/
theorem startsListed_iff_padded :
    " 1 hour " ∈ (announced made.state).map ScheduleEntry.expression ∧
      ¬ StartsListed Lamp.engine " 1 hour " Dict.empty made.state := by
  have hlisted : " 1 hour " ∈ (announced made.state).map ScheduleEntry.expression := by
    rw [announced_made]
    exact List.mem_singleton_self _
  exact ⟨hlisted, fun h => absurd
    ((startsListed_iff (State.filed_start _) reaches_made hlisted Dict.empty).mp h) (by decide)⟩

end Session.Padded

end Automation.Engine
