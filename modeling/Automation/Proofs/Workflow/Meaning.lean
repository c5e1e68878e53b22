import Automation.Proofs.Workflow.Row
import Automation.Proofs.Workflow.Step
import Mathlib

/-!
# What a converted script means

A script that is converted to a workflow does as a workflow what it did as a script. Its actions
must be such that nodes can stand for them: calls of the forwarded commands with all their
arguments, and waits for a number of seconds. Then the two runs call the same handlers with the same
arguments in the same order, count the same unknown calls, pause for the same time, and fail at the
same place.

What this does not say: the workflow's run also writes a log, for which it reads the clock, and
keeps the outputs of its nodes; the rule's run does neither. Identifiers that differ are asked of
their supply.
-/
namespace Automation

namespace Workflow

open Routine

variable {η : Type}

/-- The commands that the built-in behaviours pass on, with how many arguments they take. -/
def forwarded : List (String × Nat) :=
  [("switchScene", 1), ("playSound", 2), ("showAlert", 3), ("speak", 1)]

/-- An action for which a node can stand. -/
structure Convertible (context : Context) (action : Action) : Prop where
  finite : ∀ a ∈ action.arguments, a.Finite
  known : (action.command, action.arguments.length) ∈ forwarded ∨
    action.command = Action.waitName ∧ ∃ first rest seconds, action.arguments = first :: rest ∧
      (first.render context).number? = some seconds

/-- The template of a forwarded command has the arguments of the command as its inputs, and under it
stands the behaviour that passes the command on. -/
theorem template_of_forwarded {command : String} {count : Nat} (h : (command, count) ∈ forwarded)
    (registry : Registry η) :
    ∃ template, (templateFor? command).bind Catalog.builtin.get? = some template ∧
      template.inputs.length = count ∧ (template.inputs.map Parameter.name).Nodup ∧
      command ≠ Action.waitName ∧
      (Behavior.builtin registry).get? template.id =
        some (Behavior.forward registry command (template.inputs.map Parameter.name)) := by
  simp only [forwarded, List.mem_cons, Prod.mk.injEq, List.not_mem_nil, or_false] at h
  obtain ⟨rfl, rfl⟩ | ⟨rfl, rfl⟩ | ⟨rfl, rfl⟩ | ⟨rfl, rfl⟩ := h
  · exact ⟨_, rfl, rfl, by decide, by decide, rfl⟩
  · exact ⟨_, rfl, rfl, by decide, by decide, rfl⟩
  · exact ⟨_, rfl, rfl, by decide, by decide, rfl⟩
  · exact ⟨_, rfl, rfl, by decide, by decide, rfl⟩

theorem template_of_wait (registry : Registry η) :
    ∃ template, (templateFor? Action.waitName).bind Catalog.builtin.get? = some template ∧
      template.inputs.map Parameter.name = ["seconds"] ∧
      (Behavior.builtin registry).get? template.id = some Behavior.delay :=
  ⟨_, rfl, rfl, rfl⟩

namespace Runner

/-- The node of a convertible action stands for it. -/
theorem standsFor_nodeOfAction (registry : Registry η) {context : Context} {action : Action}
    (hc : Convertible context action) (hr : ∀ a ∈ action.arguments, a.Representable) :
    ∃ template, (templateFor? action.command).bind Catalog.builtin.get? = some template ∧
      ∀ id slot, StandsFor registry context action (nodeOfAction id slot template action) := by
  obtain ⟨command, arguments⟩ := action
  obtain ⟨hfinite, hknown | ⟨rfl, first, rest, seconds, rfl, hseconds⟩⟩ := hc
  · obtain ⟨template, ht, hlength, hnodup, hwait, hget⟩ := template_of_forwarded hknown registry
    have hfields := field?_configure hnodup hlength.le context
    rw [hlength, List.take_length] at hfields
    have hvalues : ∀ v ∈ arguments.map (fun a => (a.render context).toJson), v.isNull = false := by
      intro v hv
      obtain ⟨a, ha, rfl⟩ := List.mem_map.mp hv
      exact Argument.isNull_toJson ((hfinite a ha).render context)
    have hforward := Behavior.forwardedArguments_of_map hfields hvalues
    refine ⟨template, ht, fun id slot => ⟨rfl, _, hget, Behavior.enacts_forward registry hwait ?_⟩⟩
    rw [List.map_map]
    exact hforward
  · obtain ⟨template, ht, hnames, hget⟩ := template_of_wait registry
    have hlength : template.inputs.length = 1 := by
      rw [← List.length_map Parameter.name, hnames]
      rfl
    have hnodup : (template.inputs.map Parameter.name).Nodup := by
      rw [hnames]
      decide
    have hfields := @field?_configure template (first :: rest) hnodup (by simp [hlength]) context
    rw [hnames, hlength] at hfields
    have hfield := (List.cons.inj hfields).1
    have hfirst : first ∈ first :: rest := List.mem_cons_self
    obtain ⟨d, hd, hsame⟩ := Behavior.numberField?_toJson hfield ((hr _ hfirst).render context)
      ((hfinite _ hfirst).render context) hseconds
    have hargs : ((first :: rest).map (Argument.render context)).head?.bind Argument.number? =
        some seconds := hseconds
    have henacts := Behavior.enacts_delay registry hargs hd hsame
    exact ⟨template, ht, fun id slot => ⟨rfl, _, hget, henacts⟩⟩

/-- The nodes of convertible actions stand for them, one each. -/
theorem standsFor_nodesFrom (registry : Registry η) {context : Context} {actions : List Action}
    (hc : ∀ action ∈ actions, Convertible context action)
    (hr : ∀ action ∈ actions, ∀ a ∈ action.arguments, a.Representable) :
    (mappedActions Catalog.builtin actions).length = actions.length ∧
      ∀ slot ids, ids.length = actions.length → List.Forall₂ (StandsFor registry context) actions
        (nodesFrom slot ids (mappedActions Catalog.builtin actions)) := by
  induction actions with
  | nil => exact ⟨rfl, fun slot ids _ => by cases ids <;> exact .nil⟩
  | cons action rest ih =>
    rw [List.forall_mem_cons] at hc hr
    obtain ⟨template, ht, hstands⟩ := standsFor_nodeOfAction registry hc.1 hr.1
    obtain ⟨hlength, hnodes⟩ := ih hc.2 hr.2
    have hmapped := mappedActions_cons ht rest
    rw [hmapped]
    refine ⟨congrArg (· + 1) hlength, fun slot ids hids => ?_⟩
    cases ids with
    | nil => cases hids
    | cons id ids => exact .cons (hstands id slot) (hnodes (slot + 1) ids (Nat.succ.inj hids))

/-- How the actions of a rule and the nodes that stand for them came to their end. -/
inductive Ended (nodes : List Node) (before : Nat) (execution : Execution) :
    Rule.Outcome → Option NodeFailure → Prop where
  | through {outcome : Rule.Outcome} (h : outcome.failure = none) :
      Ended nodes before execution outcome none
  | failed {outcome : Rule.Outcome} {failure : Rule.Failure} {i : Nat} {node : Node}
      (h : outcome.failure = some failure) (index : failure.index = before + i)
      (place : nodes[i]? = some node) (blames : Blames node execution) (reason : String) :
      Ended nodes before execution outcome (some (.fatal node.id reason))

theorem Ended.cons {nodes : List Node} {before : Nat} {execution : Execution}
    {outcome : Rule.Outcome} {result : Option NodeFailure} (node : Node)
    (h : Ended nodes (before + 1) execution outcome result) :
    Ended (node :: nodes) before execution outcome result := by
  cases h with
  | through h => exact .through h
  | @failed failure i node' h index place blames reason =>
    refine @Ended.failed _ _ _ _ failure (i + 1) node' h ?_ place blames reason
    omega

/-- Nodes in a row do what the actions do for which they stand. -/
theorem agree_runNodes {runner : Runner η} {registry : Registry η} {context : Context}
    (hb : runner.behaviors = Behavior.builtin registry) {actions : List Action} {nodes : List Node}
    (h : List.Forall₂ (StandsFor registry context) actions nodes) {outcome : Rule.Outcome}
    (ho : outcome.failure = none) {a : World η} {desk : Desk η} (ha : a.Alike desk.1) :
    Agree (fun final a result desk =>
        Ended nodes outcome.completed desk.2.execution final result ∧ a.Alike desk.1)
      (fun a desk => a.Alike desk.1) ((Rule.runFrom registry context outcome actions).runAlone a)
      ((runner.runNodes context nodes).runAlone desk) := by
  induction h generalizing outcome a desk with
  | nil =>
    rw [Rule.runFrom, runNodes]
    exact .finished ⟨.through ho, ha⟩ rfl
  | @cons action node actions nodes hfirst _ ih =>
    rw [Rule.runFrom, runNodes, if_pos hfirst.enabled, runAlone_bind, runAlone_bind]
    refine (agree_runNode hb hfirst ha).andThen ?_
    rintro r a result desk ⟨hcame, ha⟩
    cases hcame with
    | through dispatch =>
      have hrest : ∀ next : Rule.Outcome, next.completed = outcome.completed + 1 →
          next.failure = none →
          Agree (fun final a result desk =>
              Ended (node :: nodes) outcome.completed desk.2.execution final result ∧
                a.Alike desk.1)
            (fun a desk => a.Alike desk.1) ((Rule.runFrom registry context next actions).runAlone a)
            ((runner.runNodes context nodes).runAlone desk) := by
        intro next hnext hf
        refine (ih hf ha).mono fun final a result desk h => ⟨?_, h.2⟩
        rw [hnext] at h
        exact h.1.cons node
      cases dispatch with
      | handled output => exact hrest _ rfl ho
      | unknown => exact hrest _ rfl ho
    | failed message reason blames =>
      have hzero : (node :: nodes)[0]? = some node := List.getElem?_cons_zero
      exact .finished ⟨.failed rfl rfl hzero blames reason, ha⟩ rfl

/-- What the execution of a workflow says of a rule's outcome. -/
inductive Reports (nodes : List Node) (execution : Execution) (outcome : Rule.Outcome) : Prop where
  | completed (h : outcome.failure = none) (status : execution.status = .completed)
  | failed {failure : Rule.Failure} {node : Node} (h : outcome.failure = some failure)
      (place : nodes[failure.index]? = some node) (status : execution.status = .failed)
      (blames : Blames node execution) (reason : String)
      (error : execution.error = some (NodeFailure.fatal node.id reason).message)

/-- A workflow whose nodes stand for the actions of a rule does what the rule does. -/
theorem agree_runOnDesk {runner : Runner η} {registry : Registry η} {context : Context}
    {w : Workflow} {rule : Rule} (hb : runner.behaviors = Behavior.builtin registry)
    (ho : runner.orderedNodes w = .ok w.nodes)
    (h : List.Forall₂ (StandsFor registry context) rule.actions w.nodes) {a : World η}
    {desk : Desk η} (ha : a.Alike desk.1) :
    Agree (fun outcome a _ desk => Reports w.nodes desk.2.execution outcome ∧ a.Alike desk.1)
      (fun a desk => a.Alike desk.1) ((rule.run registry context).runAlone a)
      ((runner.runOnDesk w context).runAlone desk) := by
  have hnone : Rule.Outcome.none.failure = none := rfl
  rw [Rule.run, runOnDesk, ho, runAlone_bind]
  refine (agree_runNodes hb h hnone ha).follow ?_
  rintro outcome a result desk ⟨hended, ha⟩
  cases hended with
  | through h => exact ⟨_, _, rfl, .completed h rfl, alike_stamp ha _⟩
  | @failed failure i node h index place blames reason =>
    have hi : failure.index = i := index.trans (Nat.zero_add i)
    exact ⟨_, _, rfl, .failed h (hi ▸ place) rfl blames reason rfl, alike_stamp ha _⟩

/-- The run ended with a failure of the node at a place. The failure is one for good, which is not
tried again, and the last entry of the log tells of it. -/
def FailedAt (w : Workflow) (execution : Execution) (i : Nat) : Prop :=
  execution.status = .failed ∧ ∃ node reason, w.nodes[i]? = some node ∧ Blames node execution ∧
    execution.error = some (NodeFailure.fatal node.id reason).message

/-- The run of a workflow went as the run of a rule did. -/
structure SameCourse (w : Workflow) (direct : Ending (World η) Rule.Outcome)
    (converted : Ending (World η) (Execution × Variables)) : Prop where
  handlers : converted.state.handlers = direct.state.handlers
  unknownDispatches : converted.state.unknownDispatches = direct.state.unknownDispatches
  nanos : (converted.pauses.map Duration.nanos).sum = (direct.pauses.map Duration.nanos).sum
  elapsed : converted.elapsed = direct.elapsed
  crashed : ∀ message, converted.outcome = .error message ↔ direct.outcome = .error message
  completed : ∀ outcome execution vars, direct.outcome = .ok outcome →
    converted.outcome = .ok (execution, vars) →
      (execution.status = .completed ↔ outcome.failure = none)
  failed : ∀ outcome execution vars, direct.outcome = .ok outcome →
    converted.outcome = .ok (execution, vars) →
      ∀ i, FailedAt w execution i ↔ ∃ failure, outcome.failure = some failure ∧ failure.index = i

/-- The log blames one identifier only. -/
theorem Blames.id_eq {a b : Node} {execution : Execution} (ha : Blames a execution)
    (hb : Blames b execution) : a.id = b.id := by
  obtain ⟨entry, he, -, ha⟩ := ha
  obtain ⟨other, ho, -, hb⟩ := hb
  obtain rfl : entry = other := Option.some.inj (he.symm.trans ho)
  exact Option.some.inj (ha.symm.trans hb)

theorem Reports.completed_iff {nodes : List Node} {execution : Execution} {outcome : Rule.Outcome}
    (h : Reports nodes execution outcome) :
    execution.status = .completed ↔ outcome.failure = none := by
  cases h with
  | completed h status => simp [h, status]
  | failed h place status blames reason error => simp [h, status]

theorem Reports.failedAt_iff {w : Workflow} {execution : Execution} {outcome : Rule.Outcome}
    (hn : w.nodeIds.Nodup) (h : Reports w.nodes execution outcome) (i : Nat) :
    FailedAt w execution i ↔ ∃ failure, outcome.failure = some failure ∧ failure.index = i := by
  cases h with
  | completed h status => simp [FailedAt, h, status]
  | @failed failure node h place status blames reason error =>
    constructor
    · rintro ⟨-, other, -, hplace, hblames, -⟩
      have hid : w.nodeIds[failure.index]? = w.nodeIds[i]? := by
        rw [nodeIds, List.getElem?_map, List.getElem?_map, place, hplace]
        exact congrArg some (blames.id_eq hblames)
      have hlt : failure.index < w.nodeIds.length := by
        rw [nodeIds, List.length_map]
        exact (List.getElem?_eq_some_iff.mp place).1
      exact ⟨failure, h, (List.getElem?_inj hlt hn).mp hid⟩
    · rintro ⟨other, ho, rfl⟩
      obtain rfl : failure = other := Option.some.inj (h.symm.trans ho)
      exact ⟨status, node, reason, place, blames, error⟩

/-- A run is the run on its desk, with what lies on the desk returned. -/
theorem runAlone_run (runner : Runner η) (w : Workflow) (execution : Execution) (context : Context)
    (world : World η) :
    (runner.run w execution context).runAlone world =
      let ending := (runner.runOnDesk w context).runAlone (world, ⟨w.vars, execution⟩)
      ⟨ending.outcome.map fun _ => (ending.state.2.execution, ending.state.2.vars),
        ending.state.1, ending.pauses⟩ := by
  rw [run, runAlone_bind, runAlone_withOwn]
  generalize (runner.runOnDesk w context).runAlone (world, ⟨w.vars, execution⟩) = ending
  obtain ⟨outcome, desk, pauses⟩ := ending
  cases outcome with
  | ok done => simp [Except.map]
  | error message => rfl

/-- A workflow whose nodes stand for the actions of a rule goes as the rule does. -/
theorem sameCourse_run {runner : Runner η} {registry : Registry η} {context : Context}
    {w : Workflow} {rule : Rule} (hb : runner.behaviors = Behavior.builtin registry)
    (hn : w.nodeIds.Nodup) (ho : runner.orderedNodes w = .ok w.nodes)
    (h : List.Forall₂ (StandsFor registry context) rule.actions w.nodes) (world : World η)
    (execution : Execution) :
    SameCourse w ((rule.run registry context).runAlone world)
      ((runner.run w execution context).runAlone world) := by
  let desk : Desk η := (world, ⟨w.vars, execution⟩)
  have halike : world.Alike desk.1 := ⟨rfl, rfl⟩
  have hagree := agree_runOnDesk hb ho h halike
  rw [runAlone_run]
  generalize (rule.run registry context).runAlone world = direct at hagree ⊢
  change SameCourse w direct (
    let ending := (runner.runOnDesk w context).runAlone desk
    ⟨ending.outcome.map fun _ => (ending.state.2.execution, ending.state.2.vars),
      ending.state.1, ending.pauses⟩)
  generalize (runner.runOnDesk w context).runAlone desk = converted at hagree ⊢
  have hnanos := hagree.nanos_eq.symm
  have helapsed := hagree.elapsed_eq.symm
  cases hagree with
  | @crashed message a desk pauses others ha hp =>
    change SameCourse w _ ⟨.error message, desk.1, others⟩
    constructor
    · exact ha.handlers
    · exact ha.unknownDispatches
    · exact hnanos
    · exact helapsed
    · intro other
      constructor
      · rintro ⟨⟩
        rfl
      · rintro ⟨⟩
        rfl
    · intro outcome execution vars hd
      cases hd
    · intro outcome execution vars hd
      cases hd
  | @finished outcome _ a desk pauses others h hp =>
    obtain ⟨hreports, ha⟩ := h
    change SameCourse w _ ⟨.ok (desk.2.execution, desk.2.vars), desk.1, others⟩
    constructor
    · exact ha.handlers
    · exact ha.unknownDispatches
    · exact hnanos
    · exact helapsed
    · intro other
      constructor
      · rintro ⟨⟩
      · rintro ⟨⟩
    · rintro _ _ _ ⟨⟩ ⟨⟩
      exact hreports.completed_iff
    · rintro _ _ _ ⟨⟩ ⟨⟩
      exact hreports.failedAt_iff hn

end Runner

open Runner

/-- The conversion of a script preserves its meaning. A script that compiles becomes a workflow, and
from every world, with every registry, order of the run and number of retries, the workflow's run
goes as the run of the script's first rule. With a record of the calls of handlers beside them it
does so too, so they are the same calls with the same arguments in the same order. -/
theorem sameCourse_ofScript {script : Script} {program : Program} {rule : Rule} {rest : List Rule}
    {context : Context} {ids : Supply Uuid} (hcompiles : script.program = .ok program)
    (hfirst : program.rules = rule :: rest)
    (hconvertible : ∀ action ∈ rule.actions, Convertible context action)
    (hdistinct : ids.Distinct (2 * rule.actions.length)) (now : Instant) :
    ∃ w later, ofScript script Catalog.builtin now ids = .ok (w, later) ∧
      ∀ (registry : Registry η) (order : Order) (retries : RetryPolicy) (world : World η)
        (id : Uuid) (start : Instant),
        SameCourse w ((rule.run registry context).runAlone world)
          ((Runner.run ⟨Behavior.builtin registry, order, retries⟩ w (.start id w.id start)
            context).runAlone world) ∧
        SameCourse w ((rule.run registry.recorded context).runAlone world.withRecord)
          ((Runner.run ⟨Behavior.builtin registry.recorded, order, retries⟩ w (.start id w.id start)
            context).runAlone world.withRecord) := by
  have hrepresentable : ∀ action ∈ rule.actions, ∀ a ∈ action.arguments, a.Representable :=
    Program.representable_of_compile hcompiles rule (by rw [hfirst]; exact List.mem_cons_self)
  let made := converted script.name program.rules Catalog.builtin now ids
  refine ⟨made.1, made.2, ofScript_eq hcompiles Catalog.builtin now ids, ?_⟩
  have hmapped : firstMapped Catalog.builtin program.rules =
      mappedActions Catalog.builtin rule.actions := by
    rw [firstMapped, hfirst]
    rfl
  have hgo : ∀ {η : Type} (registry : Registry η) (order : Order) (retries : RetryPolicy)
      (world : World η) (execution : Execution),
      SameCourse made.1 ((rule.run registry context).runAlone world)
        ((Runner.run ⟨Behavior.builtin registry, order, retries⟩ made.1 execution
          context).runAlone world) := by
    intro η registry order retries world execution
    obtain ⟨hlength, hstands⟩ := standsFor_nodesFrom registry hconvertible hrepresentable
    have hrow : made.1.IsRow := by
      apply isRow_converted
      rwa [hmapped, hlength]
    have hnodes : List.Forall₂ (StandsFor registry context) rule.actions made.1.nodes := by
      show List.Forall₂ _ _ (nodesFrom 0 _ (firstMapped Catalog.builtin program.rules))
      rw [hmapped]
      exact hstands 0 _ ((length_rowIds _ _).1.trans hlength)
    exact sameCourse_run rfl hrow.nodup (hrow.orderedNodes_eq _) hnodes world execution
  intro registry order retries world id start
  exact ⟨hgo registry order retries world _, hgo registry.recorded order retries world.withRecord _⟩

/-- A script that greets and waits, with a handler for the greeting, run in the order of the
connections. -/
theorem sameCourse_ofScript_greeting :
    let code := "on raid do speak('hi') wait(1) end"
    let script := Script.create ⟨0⟩ ⟨0, 0⟩ "greeting" code
    let rule : Rule := ⟨.event "raid" none,
      [⟨"speak", [.string "hi"]⟩, ⟨"wait", [.number (.finite false Double.one)]⟩]⟩
    let ids : Supply Uuid := ⟨fun n => ⟨BitVec.ofNat 128 n⟩, 1⟩
    let registry : Registry Nat := .ofList
      [("speak", fun _ => Routine.atomically fun greetings => (.ok .null, greetings + 1))]
    script.program = .ok ⟨[rule]⟩ ∧ (∀ action ∈ rule.actions, Convertible Dict.empty action) ∧
      ids.Distinct 4 ∧
      ∃ w later, ofScript script Catalog.builtin ⟨0, 0⟩ ids = .ok (w, later) ∧
        ∀ world : World Nat,
          SameCourse w ((rule.run registry.recorded Dict.empty).runAlone world.withRecord)
            ((Runner.run ⟨Behavior.builtin registry.recorded, .topological, .standard⟩ w
              (.start ⟨0⟩ w.id ⟨0, 0⟩) Dict.empty).runAlone world.withRecord) := by
  intro code script rule ids registry
  have hcompiles : script.program = .ok ⟨[rule]⟩ := by
    have h : (Program.compile code).toOption = some ⟨[rule]⟩ := by decide +kernel
    change Program.compile code = _
    cases hc : Program.compile code with
    | error e =>
      rw [hc] at h
      cases h
    | ok program =>
      rw [hc] at h
      exact congrArg Except.ok (Option.some.inj h)
  have hconvertible : ∀ action ∈ rule.actions, Convertible Dict.empty action := by
    have hspeak : Convertible Dict.empty ⟨"speak", [.string "hi"]⟩ := by
      refine ⟨fun a ha d hd => ?_, Or.inl (by decide)⟩
      rw [List.mem_singleton.mp ha] at hd
      cases hd
    have hwait : Convertible Dict.empty ⟨"wait", [.number (.finite false Double.one)]⟩ := by
      refine ⟨fun a ha d hd => ?_, Or.inr ⟨rfl, _, _, _, rfl, rfl⟩⟩
      rw [List.mem_singleton.mp ha] at hd
      cases hd
      rfl
    exact List.forall_mem_cons.mpr ⟨hspeak, List.forall_mem_singleton.mpr hwait⟩
  have hdistinct : ids.Distinct 4 := by
    change (ids.takeMany 4).1.Nodup
    decide
  obtain ⟨w, later, hw, hruns⟩ := @sameCourse_ofScript Nat script ⟨[rule]⟩ rule [] Dict.empty ids
    hcompiles rfl hconvertible hdistinct ⟨0, 0⟩
  exact ⟨hcompiles, hconvertible, hdistinct, w, later, hw,
    fun world => (hruns registry .topological .standard world ⟨0⟩ ⟨0, 0⟩).2⟩

end Workflow
end Automation
