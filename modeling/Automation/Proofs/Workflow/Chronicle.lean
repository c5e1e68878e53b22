import Automation.Proofs.Dict
import Automation.Proofs.Workflow.Visits

/-!
# What an execution tells of a run

An execution that was started afresh ends as completed or as failed, and tells which nodes were
visited. The announcements in its log are those of the enabled nodes in their order, up to the first
that failed, and of all of them if there was none. The calls of behaviours are those of the visits,
and the results are what the visits left, the last of several under one identifier.
-/
namespace Automation.Workflow.Runner

open Routine

variable {η : Type} {runner : Runner η} {context : Context} {desk last : Desk η}
  {nodes : List Node} {visits : List Visit} {failure : Option NodeFailure}

/-- What is written down when the nodes have been visited. -/
def finish : Option NodeFailure → Desk η → Desk η
  | none => Desk.stamp Execution.complete
  | some failure => Desk.stamp fun execution now => execution.fail now failure.message

/-- What is written down when the nodes have no order. -/
def giveUp (cause : GraphError) (desk : Desk η) : Desk η :=
  Desk.stamp (fun execution now => execution.fail now cause.message)
    (Desk.stamp (fun execution now => execution.log now .error none cause.message) desk)

theorem Tours.gives_runOnDesk {w : Workflow} (ordered : runner.orderedNodes w = .ok nodes)
    (h : Tours runner context desk nodes visits failure last) :
    (runner.runOnDesk w context).Gives desk () (finish failure last) := by
  rw [runOnDesk, ordered]
  refine h.gives_runNodes.bind ?_
  cases failure with
  | none => exact .modify _ _
  | some failure => exact .modify _ _

theorem gives_runOnDesk_of_error {w : Workflow} {cause : GraphError}
    (h : runner.orderedNodes w = .error cause) (context : Context) (desk : Desk η) :
    (runner.runOnDesk w context).Gives desk () (giveUp cause desk) := by
  rw [runOnDesk, h]
  exact (Gives.modify _ _).bind (.modify _ _)

theorem gives_run {w : Workflow} {execution : Execution} {world : World η} {last : Desk η}
    (h : (runner.runOnDesk w context).Gives (world, ⟨w.vars, execution⟩) () last) :
    (runner.run w execution context).Gives world (last.2.execution, last.2.vars) last.1 :=
  h.withOwn.bind (.pure _ _)

theorem finish_withRecord (failure : Option NodeFailure) (record : List Invocation)
    (desk : Desk η) :
    finish failure (desk.withRecord record) = (finish failure desk).withRecord record := by
  cases failure <;> rfl

/-- The visits of a run, as its execution and the record of invocations tell of them. -/
structure Itinerary (runner : Runner η) (context : Context) (nodes : List Node) (e : Execution)
    (visits : List Visit) (record : List Invocation) : Prop where
  inOrder : visits.map Visit.node <+: nodes.filter Node.enabled
  announced : e.announced = visits.map fun visit => visit.node.announcement
  /-- A run that is completed has visited all nodes. -/
  through : e.status = .completed → visits.map Visit.node = nodes.filter Node.enabled
  /-- A run has failed if the last node that it visited has. -/
  stopped : e.status = .failed ↔ ∃ last failure, visits.getLast? = some last ∧
    last.failure? = some failure ∧ e.error = some failure.message
  well : ∀ visit ∈ visits.dropLast, visit.failure? = none
  answered : ∀ visit ∈ visits,
    (visit.answers ≠ [] ↔ runner.behaviors.contains visit.node.templateId)
  invoked : record = visits.flatMap (Visit.invocations context)
  results : ∀ id, e.results.get? id = (Visit.outputs id visits).getLast?

/-- What a run of a workflow from the given world has come to. -/
structure Chronicle (runner : Runner η) (w : Workflow) (context : Context) (start : Execution)
    (world : World η) (e : Execution) (vars : Variables) (record : List Invocation) : Prop where
  ran : ∃ left, (runner.run w start context).Gives world (e, vars) left ∧
    (runner.recorded.run w start context).Gives (noted [] world) (e, vars) (noted record left)
  ended : e.endTime.isSome
  settled : e.status = .completed ∧ e.error = none ∨ e.status = .failed ∧ e.error.isSome
  unordered : ∀ cause, runner.orderedNodes w = .error cause → runner.order = .topological ∧
    w.topologicalOrder = .error cause ∧ e.status = .failed ∧ e.error = some cause.message ∧
    (∀ entry ∈ e.logs, entry.nodeId = none) ∧ record = [] ∧ e.results = Dict.empty ∧ vars = w.vars
  ordered : ∀ nodes, runner.orderedNodes w = .ok nodes →
    ∃ visits, Itinerary runner context nodes e visits record

theorem Tours.itinerary {id workflowId : Uuid} {now : Instant}
    (h : Tours runner context desk nodes visits failure last)
    (hstart : desk.2.execution = .start id workflowId now) :
    Itinerary runner context nodes (finish failure last).2.execution visits
      (visits.flatMap (Visit.invocations context)) := by
  have hannounced : last.2.execution.announced =
      visits.map fun visit => visit.node.announcement := by
    rw [h.announced_eq, hstart]
    rfl
  have hresults (id : String) :
      last.2.execution.results.get? id = (Visit.outputs id visits).getLast? := by
    rw [h.results_eq id, hstart]
    exact Option.or_none
  cases h.stops with
  | through all well =>
    have hnone : ¬ ∃ visit failure, visits.getLast? = some visit ∧ visit.failure? = some failure ∧
        (finish none last).2.execution.error = some failure.message := by
      rintro ⟨visit, failure, hlast, hill, -⟩
      rw [well visit (List.mem_of_getLast? hlast)] at hill
      cases hill
    have hstatus : ¬ Execution.Status.completed = .failed := by decide
    exact ⟨all ▸ List.prefix_rfl, hannounced, fun _ => all, iff_of_false hstatus hnone,
      fun visit hmem => well visit (List.mem_of_mem_dropLast hmem), h.answers_ne_nil, rfl, hresults⟩
  | @failed before final failure part well ill =>
    have hfinal : (before ++ [final]).getLast? = some final := List.getLast?_concat
    exact ⟨part, hannounced, nofun, iff_of_true rfl ⟨final, failure, hfinal, ill, rfl⟩,
      by simpa using well, h.answers_ne_nil, rfl, hresults⟩

theorem Tours.settled {id workflowId : Uuid} {now : Instant}
    (h : Tours runner context desk nodes visits failure last)
    (hstart : desk.2.execution = .start id workflowId now) :
    let e := (finish failure last).2.execution
    e.endTime.isSome ∧
      (e.status = .completed ∧ e.error = none ∨ e.status = .failed ∧ e.error.isSome) := by
  cases failure with
  | none =>
    have herror : last.2.execution.error = none := by
      rw [h.error_eq, hstart]
      rfl
    exact ⟨rfl, .inl ⟨rfl, herror⟩⟩
  | some failure => exact ⟨rfl, .inr ⟨rfl, rfl⟩⟩

/-- The order fails only if it is asked for. -/
theorem topological_of_error {w : Workflow} {cause : GraphError}
    (h : runner.orderedNodes w = .error cause) :
    runner.order = .topological ∧ w.topologicalOrder = .error cause := by
  rw [orderedNodes] at h
  cases horder : runner.order with
  | stored => simp [horder] at h
  | topological =>
    rw [horder] at h
    cases hsorted : w.topologicalOrder with
    | ok ids => simp [hsorted, Except.map] at h
    | error other =>
      simp only [hsorted, Except.map, Except.error.injEq] at h
      exact ⟨rfl, congrArg Except.error h⟩

/-- A run of a workflow visits the enabled nodes in their order, up to the first that fails, and its
execution tells of the visits. -/
theorem run_chronicled {runner : Runner η} (safe : runner.CrashFree) (w : Workflow)
    (context : Context) (id : Uuid) (now : Instant) (world : World η) :
    ∃ e vars record, Chronicle runner w context (.start id w.id now) world e vars record := by
  let desk : Desk η := (world, ⟨w.vars, .start id w.id now⟩)
  cases horder : runner.orderedNodes w with
  | error cause =>
    have horder' : runner.recorded.orderedNodes w = .error cause := horder
    have hran := gives_run (gives_runOnDesk_of_error horder context desk)
    have hnoted := gives_run (gives_runOnDesk_of_error horder' context (desk.withRecord []))
    obtain ⟨htopological, hcause⟩ := topological_of_error horder
    refine ⟨_, _, [], ⟨_, hran, hnoted⟩, rfl, .inr ⟨rfl, rfl⟩, ?_, ?_⟩
    · rintro other hother
      obtain rfl : cause = other := Except.error.inj (horder.symm.trans hother)
      refine ⟨htopological, hcause, rfl, rfl, ?_, rfl, rfl, rfl⟩
      exact List.forall_mem_singleton.mpr rfl
    · rintro nodes hnodes
      cases horder.symm.trans hnodes
  | ok nodes =>
    obtain ⟨visits, failure, last, tours⟩ := exists_tours safe context desk nodes
    have horder' : runner.recorded.orderedNodes w = .ok nodes := horder
    have hran := gives_run (tours.gives_runOnDesk horder)
    have hnoted := (tours.recorded []).gives_runOnDesk horder'
    rw [finish_withRecord] at hnoted
    obtain ⟨hended, hsettled⟩ := tours.settled rfl
    refine ⟨_, _, _, ⟨_, hran, gives_run hnoted⟩, hended, hsettled, ?_, ?_⟩
    · rintro cause hcause
      cases horder.symm.trans hcause
    · rintro other hother
      obtain rfl : nodes = other := Except.ok.inj (horder.symm.trans hother)
      exact ⟨visits, tours.itinerary rfl⟩

namespace Kiln

/-- The first firing comes to nothing, the kiln is still cold. -/
def fire : Behavior Nat := fun _ => do
  let fired ← Routine.read fun scope => scope.1.handlers
  Routine.modify fun scope => (scope.1.withHandlers (fired + 1), scope.2)
  return if fired = 0 then .error (.retryable "cold") else .ok .null

def glaze : Behavior Nat := fun _ => return .error (.fatal "cracked")

def kiln : Runner Nat :=
  ⟨(Dict.empty.insert "fire" fire).insert "glaze" glaze, .stored, ⟨1, Duration.ofMillis 100⟩⟩

def piece (id templateId : String) (enabled : Bool) : Node :=
  ⟨id, templateId, "the " ++ id, Point.origin, .null, enabled⟩

/-- Nothing is known of shapes, and the cup is left out. -/
def pottery : Workflow :=
  { Workflow.create ⟨2⟩ ⟨0, 0⟩ "pottery" (.event "go" none) with
    nodes := [piece "clay" "shape" true, piece "pot" "fire" true, piece "cup" "fire" false,
      piece "bowl" "glaze" true] }

def world : World Nat :=
  ⟨0, 0, ⟨fun n => ⟨BitVec.ofNat 128 n⟩, 0⟩, ⟨fun n => ⟨n, 0⟩, 0⟩, ⟨fun n => n, 0⟩,
    ⟨fun n => n, 0⟩⟩

theorem crashFree_kiln : kiln.CrashFree := by
  intro template behavior hget config
  have hmem : (template, behavior) ∈ [("fire", fire), ("glaze", glaze)] :=
    Dict.get?_eq_some_iff.mp hget
  simp only [List.mem_cons, Prod.mk.injEq, List.not_mem_nil, or_false] at hmem
  obtain ⟨-, rfl⟩ | ⟨-, rfl⟩ := hmem
  · exact fun _ => ⟨_, rfl⟩
  · exact fun _ => ⟨_, rfl⟩

def run : Routine (World Nat) (Execution × Variables) :=
  kiln.run pottery (.start ⟨1⟩ pottery.id ⟨0, 0⟩) Dict.empty

/-- What is logged of the nodes, and how the run ends. -/
theorem told_run : (run.runAlone world).outcome.toOption.map
      (fun (e, _) => (e.announced, e.status)) =
    some ((pottery.nodes.filter Node.enabled).map Node.announcement, .failed) := by
  decide +kernel

theorem told_of_gives {e : Execution} {vars : Variables} {left : World Nat}
    (h : run.Gives world (e, vars) left) :
    e.announced = (pottery.nodes.filter Node.enabled).map Node.announcement ∧
      e.status = .failed := by
  have htold := told_run
  rw [h.1] at htold
  exact Prod.mk.inj (Option.some.inj htold)

/-- The pot is fired twice, and the bowl cracks. -/
theorem run_chronicled_kiln : kiln.CrashFree ∧ ∃ e vars record,
    Chronicle kiln pottery Dict.empty (.start ⟨1⟩ pottery.id ⟨0, 0⟩) world e vars record ∧
      e.status = .failed := by
  obtain ⟨e, vars, record, chronicle⟩ :=
    run_chronicled crashFree_kiln pottery Dict.empty ⟨1⟩ ⟨0, 0⟩ world
  obtain ⟨left, hran, -⟩ := chronicle.ran
  exact ⟨crashFree_kiln, e, vars, record, chronicle, (told_of_gives hran).2⟩

/-- If the last of the enabled nodes is the one that fails, all have been visited and the run is not
completed. -/
theorem failed_after_all_visited : ∃ e vars left,
    (kiln.run pottery (.start ⟨1⟩ pottery.id ⟨0, 0⟩) Dict.empty).Gives world (e, vars) left ∧
      kiln.orderedNodes pottery = .ok pottery.nodes ∧
      ¬ (e.announced = (pottery.nodes.filter Node.enabled).map Node.announcement ↔
        e.status = .completed) := by
  obtain ⟨⟨e, vars⟩, houtcome, -⟩ := Option.map_eq_some_iff.mp told_run
  have hran : run.Gives world (e, vars) (run.runAlone world).state := by
    refine ⟨?_, rfl⟩
    cases hr : (run.runAlone world).outcome with
    | ok result =>
      rw [hr] at houtcome
      exact congrArg Except.ok (Option.some.inj houtcome)
    | error message =>
      rw [hr] at houtcome
      cases houtcome
  obtain ⟨hannounced, hstatus⟩ := told_of_gives hran
  refine ⟨e, vars, _, hran, rfl, fun h => ?_⟩
  have hcompleted := h.mp hannounced
  rw [hstatus] at hcompleted
  cases hcompleted

end Kiln

end Automation.Workflow.Runner
