import Automation.Proofs.Command.Recorded
import Automation.Proofs.Workflow.Step

/-!
# The visits to the nodes

A run of a workflow as visits to its nodes: what the behaviour of a node answered try after try, up
to the node that failed. The visits are told by the nodes, the behaviours and the state that these
find, and not by what the run writes down; the announcements in the log and the results are then
read off the visits. A runner that writes down every call of a behaviour makes the same visits.
-/
namespace Automation

namespace Execution

/-- The words before the name of a node that is visited. -/
def announcing : String := "Executing node: "

/-- The message says that a node is visited. -/
def announces (message : String) : Bool := announcing.toList.isPrefixOf message.toList

theorem announces_name (name : String) : announces (announcing ++ name) = true := by
  rw [announces, List.isPrefixOf_iff_prefix, String.toList_append]
  exact List.prefix_append _ _

/-- Whatever else is said of a node does not announce it. -/
theorem announces_other (rest : String) : announces ("Node '" ++ rest) = false := by
  rw [announces, String.toList_append]
  rfl

/-- The visits of which the log tells, in their order: the identifiers of the nodes, and what is
said of them. -/
def announced (e : Execution) : List (Option String × String) :=
  (e.logs.filter fun entry => announces entry.message).map fun entry =>
    (entry.nodeId, entry.message)

theorem announced_log (e : Execution) (now : Instant) (level : Level) (nodeId : Option String)
    (message : String) : (e.log now level nodeId message).announced =
      e.announced ++ if announces message then [(nodeId, message)] else [] := by
  rw [announced, log, List.filter_append, List.map_append]
  cases h : announces message <;> simp [h, announced]

end Execution

/-- What the log says when a node is visited. -/
def Node.announcement (node : Node) : Option String × String :=
  (some node.id, Execution.announcing ++ node.name)

namespace Workflow

open Routine

variable {η : Type}

/-- A call of a behaviour, with what it was given and what it answered. -/
structure Invocation where
  template : String
  config : Json
  answer : Except NodeError Json

/-- What the last answer of a behaviour means for its node. -/
def judged (nodeId : String) : Except NodeError Json → Except NodeFailure Json
  | .ok output => .ok output
  | .error (.fatal message) => .error (.fatal nodeId message)
  | .error (.retryable message) => .error (.retriesExhausted nodeId message)

/-- A visit to a node: what its behaviour answered, try after try. A node without a behaviour gets
no answer. -/
structure Visit where
  node : Node
  answers : List (Except NodeError Json)

namespace Visit

def verdict? (visit : Visit) : Option (Except NodeFailure Json) :=
  visit.answers.getLast?.map (judged visit.node.id)

/-- The output of the node, if it succeeded. -/
def output? (visit : Visit) : Option Json :=
  match visit.verdict? with
  | some (.ok output) => some output
  | _ => none

/-- Why the node failed, if it did. -/
def failure? (visit : Visit) : Option NodeFailure :=
  match visit.verdict? with
  | some (.error failure) => some failure
  | _ => none

def invocations (context : Context) (visit : Visit) : List Invocation :=
  visit.answers.map fun answer =>
    ⟨visit.node.templateId, Placeholder.renderValue context visit.node.config, answer⟩

/-- The outputs of visits to nodes of one identifier. -/
def outputs (id : String) (visits : List Visit) : List Json :=
  (visits.filter fun visit => visit.node.id = id).filterMap output?

theorem getLast?_outputs_singleton (id : String) (visit : Visit) :
    (outputs id [visit]).getLast? = if visit.node.id = id then visit.output? else none := by
  by_cases hid : visit.node.id = id
  · cases hout : visit.output? <;> simp [outputs, hid, hout]
  · simp [outputs, hid]

theorem outputs_cons (id : String) (visit : Visit) (visits : List Visit) :
    outputs id (visit :: visits) = outputs id [visit] ++ outputs id visits := by
  rw [outputs, ← List.singleton_append, List.filter_append, List.filterMap_append]
  rfl

end Visit

section Tries

variable {σ : Type} {attempt : Routine σ (Except NodeError Json)}

/-- What the tries of an attempt answer, one after the other, if it can be tried again so often. -/
inductive Tries (attempt : Routine σ (Except NodeError Json)) :
    Nat → σ → List (Except NodeError Json) → σ → Prop where
  | settled {left : Nat} {s last : σ} {answer : Except NodeError Json}
      (ran : attempt.Gives s answer last)
      (settles : ∀ message, answer ≠ .error (.retryable message)) :
      Tries attempt left s [answer] last
  | exhausted {s last : σ} {message : String}
      (ran : attempt.Gives s (.error (.retryable message)) last) :
      Tries attempt 0 s [.error (.retryable message)] last
  | again {left : Nat} {s between last : σ} {message : String}
      {answers : List (Except NodeError Json)}
      (ran : attempt.Gives s (.error (.retryable message)) between)
      (later : Tries attempt left between answers last) :
      Tries attempt (left + 1) s (.error (.retryable message) :: answers) last

theorem exists_tries (finishes : attempt.Finishes) (left : Nat) (s : σ) :
    ∃ answers last, Tries attempt left s answers last := by
  induction left generalizing s with
  | zero =>
    obtain ⟨answer, last, ran⟩ := finishes.exists_gives s
    by_cases h : ∃ message, answer = .error (.retryable message)
    · obtain ⟨message, rfl⟩ := h
      exact ⟨_, _, .exhausted ran⟩
    · exact ⟨_, _, .settled ran fun message ha => h ⟨message, ha⟩⟩
  | succ left ih =>
    obtain ⟨answer, between, ran⟩ := finishes.exists_gives s
    by_cases h : ∃ message, answer = .error (.retryable message)
    · obtain ⟨message, rfl⟩ := h
      obtain ⟨answers, last, later⟩ := ih between
      exact ⟨_, _, .again ran later⟩
    · exact ⟨_, _, .settled ran fun message ha => h ⟨message, ha⟩⟩

/-- The last answer decides what comes of the tries. -/
theorem Tries.gives_retrying {left : Nat} {s last : σ} {answers : List (Except NodeError Json)}
    (h : Tries attempt left s answers last) (policy : RetryPolicy) (nodeId : String)
    (failures : Nat) : ∃ answer, answers.getLast? = some answer ∧
      (retrying policy nodeId attempt left failures).Gives s (judged nodeId answer) last := by
  induction h generalizing failures with
  | @settled left s last answer ran settles =>
    refine ⟨answer, rfl, ?_⟩
    rw [retrying.eq_def]
    refine ran.bind ?_
    cases answer with
    | ok output => exact .pure _ _
    | error e => cases e with
      | fatal message => exact .pure _ _
      | retryable message => exact absurd rfl (settles message)
  | exhausted ran =>
    refine ⟨_, rfl, ?_⟩
    rw [retrying.eq_def]
    exact ran.bind (.pure _ _)
  | @again left s between last message answers ran later ih =>
    obtain ⟨answer, hlast, hlater⟩ := ih (failures + 1)
    refine ⟨answer, by rw [List.getLast?_cons, hlast]; rfl, ?_⟩
    rw [retrying.eq_def]
    exact ran.bind ((Gives.sleep _ _).bind hlater)

end Tries

/-- A world with a record of invocations beside the state of the handlers. -/
def noted (record : List Invocation) (world : World η) : World (η × List Invocation) :=
  { world with handlers := (world.handlers, record) }

/-- A scope with a record of invocations. -/
def withRecord (record : List Invocation) (scope : Scope η) : Scope (η × List Invocation) :=
  (noted record scope.1, scope.2)

/-- A scope without its record. -/
def plainScope (scope : Scope (η × List Invocation)) : Scope η :=
  ({ scope.1 with handlers := scope.1.handlers.1 }, scope.2)

theorem isPart_plainScope : IsPart plainScope fun scope : Scope (η × List Invocation) =>
    withRecord scope.1.handlers.2 :=
  ⟨fun _ _ => rfl, fun _ => rfl, fun _ _ _ => rfl⟩

/-- The behaviour with its invocations written down. -/
def note (template : String) (behavior : Behavior η) : Behavior (η × List Invocation) :=
  fun config => do
    let answer ← (behavior config).within plainScope fun scope => withRecord scope.1.handlers.2
    Routine.modify fun scope =>
      withRecord (scope.1.handlers.2 ++ [⟨template, config, answer⟩]) (plainScope scope)
    return answer

theorem gives_note {behavior : Behavior η} {config : Json} {answer : Except NodeError Json}
    {s last : Scope η} (h : (behavior config).Gives s answer last) (template : String)
    (record : List Invocation) : (note template behavior config).Gives (withRecord record s) answer
      (withRecord (record ++ [⟨template, config, answer⟩]) last) :=
  (h.within isPart_plainScope).bind ((Gives.modify _ _).bind (.pure _ _))

/-- Recorded tries get the same answers, and all of them are in the record. -/
theorem Tries.noted {behavior : Behavior η} {config : Json} {left : Nat} {s last : Scope η}
    {answers : List (Except NodeError Json)} (h : Tries (behavior config) left s answers last)
    (template : String) (record : List Invocation) :
    Tries (note template behavior config) left (withRecord record s) answers
      (withRecord (record ++ answers.map fun answer => ⟨template, config, answer⟩) last) := by
  induction h generalizing record with
  | settled ran settles => exact .settled (gives_note ran template record) settles
  | exhausted ran => exact .exhausted (gives_note ran template record)
  | @again left s between last message answers ran later ih =>
    have hlater := ih (record ++ [⟨template, config, .error (.retryable message)⟩])
    rw [List.append_assoc] at hlater
    exact .again (gives_note ran template record) hlater

namespace Runner

/-- No behaviour crashes. -/
def CrashFree (runner : Runner η) : Prop := ∀ template behavior,
  runner.behaviors.get? template = some behavior → ∀ config, (behavior config).Finishes

/-- What is written down before a node does anything. -/
def announce (node : Node) : Desk η → Desk η :=
  Desk.stamp fun execution now =>
    execution.log now .info (some node.id) ("Executing node: " ++ node.name)

/-- What is written down of a node without a behaviour. -/
def passOver (node : Node) : Desk η → Desk η :=
  Desk.stamp fun execution now => execution.log now .info (some node.id)
    ("Node '" ++ node.name ++ "' (" ++ node.templateId ++ ") logged only")

/-- What is written down of a node that is done. -/
def conclude (node : Node) : Except NodeFailure Json → Desk η → Desk η
  | .ok output => Desk.setResult node.id output
  | .error failure => Desk.stamp fun execution now => execution.log now .error (some node.id)
      ("Node '" ++ node.name ++ "' failed: " ++ failure.message)

/-- A visit to a node, and what it makes of the desk. -/
inductive Visits (runner : Runner η) (context : Context) (desk : Desk η) (node : Node) :
    Visit → Desk η → Prop where
  | bare (absent : runner.behaviors.get? node.templateId = none) :
      Visits runner context desk node ⟨node, []⟩ (passOver node (announce node desk))
  | tried {behavior : Behavior η} {answers : List (Except NodeError Json)}
      {answer : Except NodeError Json} {scope : Scope η}
      (present : runner.behaviors.get? node.templateId = some behavior)
      (tries : Tries (behavior (Placeholder.renderValue context node.config))
        runner.retries.maxRetries (announce node desk).scope answers scope)
      (final : answers.getLast? = some answer) :
      Visits runner context desk node ⟨node, answers⟩
        (conclude node (judged node.id answer) ((announce node desk).withScope scope))

variable {runner : Runner η} {context : Context} {desk last : Desk η} {node : Node} {visit : Visit}

theorem exists_visits (safe : runner.CrashFree) (context : Context) (desk : Desk η) (node : Node) :
    ∃ visit last, Visits runner context desk node visit last := by
  cases hget : runner.behaviors.get? node.templateId with
  | none => exact ⟨_, _, .bare hget⟩
  | some behavior =>
    obtain ⟨answers, scope, tries⟩ := exists_tries (safe _ _ hget _) runner.retries.maxRetries
      (announce node desk).scope
    obtain ⟨answer, final, -⟩ := tries.gives_retrying runner.retries node.id 0
    exact ⟨_, _, .tried hget tries final⟩

/-- A node that is run is visited. -/
theorem Visits.gives_runNode (h : Visits runner context desk node visit last) :
    (runner.runNode context node).Gives desk visit.failure? last := by
  rw [runNode]
  refine (Gives.modify _ desk).bind ?_
  cases h with
  | bare absent =>
    rw [absent]
    exact (Gives.modify _ _).bind (.pure _ _)
  | @tried behavior answers answer scope present tries final =>
    rw [present]
    obtain ⟨answer', final', hgives⟩ := tries.gives_retrying runner.retries node.id 0
    obtain rfl : answer = answer' := Option.some.inj (final.symm.trans final')
    refine (hgives.within Runner.isPart_scope).bind ?_
    simp only [Visit.failure?, Visit.verdict?, final, Option.map_some]
    cases judged node.id answer with
    | ok output => exact (Gives.modify _ _).bind (.pure _ _)
    | error failure => exact (Gives.modify _ _).bind (.pure _ _)

/-- The visits of a run, up to the first that failed, and what they make of the desk. -/
inductive Tours (runner : Runner η) (context : Context) :
    Desk η → List Node → List Visit → Option NodeFailure → Desk η → Prop where
  | nil {desk : Desk η} : Tours runner context desk [] [] none desk
  | skipped {desk last : Desk η} {node : Node} {nodes : List Node} {visits : List Visit}
      {failure : Option NodeFailure} (off : node.enabled = false)
      (later : Tours runner context desk nodes visits failure last) :
      Tours runner context desk (node :: nodes) visits failure last
  | cons {desk between last : Desk η} {node : Node} {nodes : List Node} {visit : Visit}
      {visits : List Visit} {failure : Option NodeFailure} (on : node.enabled = true)
      (here : Visits runner context desk node visit between) (well : visit.failure? = none)
      (later : Tours runner context between nodes visits failure last) :
      Tours runner context desk (node :: nodes) (visit :: visits) failure last
  | failed {desk last : Desk η} {node : Node} {visit : Visit} {failure : NodeFailure}
      (nodes : List Node) (on : node.enabled = true)
      (here : Visits runner context desk node visit last) (ill : visit.failure? = some failure) :
      Tours runner context desk (node :: nodes) [visit] (some failure) last

variable {nodes : List Node} {visits : List Visit} {failure : Option NodeFailure}

theorem exists_tours (safe : runner.CrashFree) (context : Context) (desk : Desk η)
    (nodes : List Node) : ∃ visits failure last,
      Tours runner context desk nodes visits failure last := by
  induction nodes generalizing desk with
  | nil => exact ⟨_, _, _, .nil⟩
  | cons node nodes ih =>
    cases henabled : node.enabled with
    | false =>
      obtain ⟨visits, failure, last, later⟩ := ih desk
      exact ⟨_, _, _, .skipped henabled later⟩
    | true =>
      obtain ⟨visit, between, here⟩ := exists_visits safe context desk node
      cases hfailure : visit.failure? with
      | none =>
        obtain ⟨visits, failure, last, later⟩ := ih between
        exact ⟨_, _, _, .cons henabled here hfailure later⟩
      | some failure => exact ⟨_, _, _, .failed nodes henabled here hfailure⟩

theorem Tours.gives_runNodes (h : Tours runner context desk nodes visits failure last) :
    (runner.runNodes context nodes).Gives desk failure last := by
  induction h with
  | nil => exact .pure _ _
  | skipped off later ih =>
    rw [runNodes, if_neg (by simp [off])]
    exact ih
  | cons on here well later ih =>
    rw [runNodes, if_pos on]
    refine here.gives_runNode.bind ?_
    rw [well]
    exact ih
  | failed nodes on here ill =>
    rw [runNodes, if_pos on]
    refine here.gives_runNode.bind ?_
    rw [ill]
    exact .pure _ _

theorem Visits.node_eq (h : Visits runner context desk node visit last) : visit.node = node := by
  cases h <;> rfl

theorem Visits.answers_ne_nil (h : Visits runner context desk node visit last) :
    visit.answers ≠ [] ↔ runner.behaviors.contains visit.node.templateId := by
  cases h with
  | bare absent => simp [Dict.contains, absent]
  | @tried behavior answers answer scope present tries final =>
    have hne : answers ≠ [] := by
      rintro rfl
      simp at final
    simp [Dict.contains, present, hne]

theorem Visits.announced_eq (h : Visits runner context desk node visit last) :
    last.2.execution.announced = desk.2.execution.announced ++ [visit.node.announcement] := by
  have hannounce : (announce node desk).2.execution.announced =
      desk.2.execution.announced ++ [node.announcement] := by
    rw [Node.announcement, announce, Desk.stamp, ← Execution.announcing, Execution.announced_log,
      if_pos (Execution.announces_name node.name)]
  cases h with
  | bare absent =>
    refine Eq.trans ?_ hannounce
    simp only [passOver, Desk.stamp, String.append_assoc, Execution.announced_log,
      Execution.announces_other, Bool.false_eq_true, if_false, List.append_nil]
  | @tried behavior answers answer scope present tries final =>
    refine Eq.trans ?_ hannounce
    cases judged node.id answer with
    | ok output => rfl
    | error failure =>
      simp only [conclude, Desk.stamp, Desk.withScope, String.append_assoc,
        Execution.announced_log, Execution.announces_other, Bool.false_eq_true, if_false,
        List.append_nil]

theorem Visits.results_eq (h : Visits runner context desk node visit last) (id : String) :
    last.2.execution.results.get? id =
      (Visit.outputs id [visit]).getLast?.or (desk.2.execution.results.get? id) := by
  rw [Visit.getLast?_outputs_singleton]
  cases h with
  | bare absent =>
    have hnone : (⟨node, []⟩ : Visit).output? = none := rfl
    rw [hnone, ite_self, Option.none_or]
    rfl
  | @tried behavior answers answer scope present tries final =>
    simp only [Visit.output?, Visit.verdict?, final, Option.map_some]
    cases judged node.id answer with
    | ok output =>
      rw [conclude, Desk.setResult, Execution.setResult, Dict.get?_insert]
      split <;> rfl
    | error failure =>
      rw [ite_self, Option.none_or]
      rfl

theorem Visits.error_eq (h : Visits runner context desk node visit last) :
    last.2.execution.error = desk.2.execution.error := by
  cases h with
  | bare absent => rfl
  | @tried behavior answers answer scope present tries final =>
    cases judged node.id answer <;> rfl

/-- How the visits of a run stop: at the end of the nodes, or with the first that failed. -/
inductive Stops (nodes : List Node) : List Visit → Option NodeFailure → Prop where
  | through {visits : List Visit} (all : visits.map Visit.node = nodes)
      (well : ∀ visit ∈ visits, visit.failure? = none) : Stops nodes visits none
  | failed {before : List Visit} {last : Visit} {failure : NodeFailure}
      (part : (before ++ [last]).map Visit.node <+: nodes)
      (well : ∀ visit ∈ before, visit.failure? = none) (ill : last.failure? = some failure) :
      Stops nodes (before ++ [last]) (some failure)

theorem Stops.cons (h : Stops nodes visits failure) (well : visit.failure? = none) :
    Stops (visit.node :: nodes) (visit :: visits) failure := by
  cases h with
  | through all later => exact .through (by simp [all]) (by simpa [well] using later)
  | @failed before last failure part later ill =>
    exact @Stops.failed _ (visit :: before) last failure
      (by simpa [List.cons_prefix_cons] using part) (by simpa [well] using later) ill

theorem Tours.stops (h : Tours runner context desk nodes visits failure last) :
    Stops (nodes.filter Node.enabled) visits failure := by
  induction h with
  | nil => exact .through rfl (by simp)
  | skipped off later ih =>
    rw [List.filter_cons_of_neg (by simp [off])]
    exact ih
  | cons on here well later ih =>
    rw [List.filter_cons_of_pos on, ← here.node_eq]
    exact ih.cons well
  | @failed desk last node visit failure nodes on here ill =>
    rw [List.filter_cons_of_pos on, ← here.node_eq]
    exact @Stops.failed _ [] visit failure (by simp) (by simp) ill

theorem Tours.answers_ne_nil (h : Tours runner context desk nodes visits failure last) :
    ∀ visit ∈ visits,
      (visit.answers ≠ [] ↔ runner.behaviors.contains visit.node.templateId) := by
  induction h with
  | nil => simp
  | skipped off later ih => exact ih
  | cons on here well later ih => exact List.forall_mem_cons.mpr ⟨here.answers_ne_nil, ih⟩
  | failed nodes on here ill => exact List.forall_mem_singleton.mpr here.answers_ne_nil

theorem Tours.announced_eq (h : Tours runner context desk nodes visits failure last) :
    last.2.execution.announced =
      desk.2.execution.announced ++ visits.map fun visit => visit.node.announcement := by
  induction h with
  | nil => simp
  | skipped off later ih => exact ih
  | cons on here well later ih => simp [ih, here.announced_eq]
  | failed nodes on here ill => exact here.announced_eq

theorem Tours.results_eq (h : Tours runner context desk nodes visits failure last) (id : String) :
    last.2.execution.results.get? id =
      (Visit.outputs id visits).getLast?.or (desk.2.execution.results.get? id) := by
  induction h with
  | nil => rfl
  | skipped off later ih => exact ih
  | @cons desk between last node nodes visit visits failure on here well later ih =>
    rw [ih, here.results_eq id, Visit.outputs_cons id visit visits, List.getLast?_append,
      Option.or_assoc]
  | failed nodes on here ill => exact here.results_eq id

theorem Tours.error_eq (h : Tours runner context desk nodes visits failure last) :
    last.2.execution.error = desk.2.execution.error := by
  induction h with
  | nil => rfl
  | skipped off later ih => exact ih
  | cons on here well later ih => exact ih.trans here.error_eq
  | failed nodes on here ill => exact here.error_eq

/-- The runner with all invocations of behaviours written down, in their order. -/
def recorded (runner : Runner η) : Runner (η × List Invocation) :=
  { runner with behaviors := runner.behaviors.map note }

/-- A desk with a record of invocations. -/
def Desk.withRecord (record : List Invocation) (desk : Desk η) : Desk (η × List Invocation) :=
  (noted record desk.1, desk.2)

theorem get?_recorded (runner : Runner η) (template : String) :
    runner.recorded.behaviors.get? template =
      (runner.behaviors.get? template).map (note template) :=
  Dict.get?_map note runner.behaviors template

theorem Visits.recorded (h : Visits runner context desk node visit last)
    (record : List Invocation) : Visits runner.recorded context (desk.withRecord record) node visit
      (last.withRecord (record ++ visit.invocations context)) := by
  cases h with
  | bare absent =>
    have hget : runner.recorded.behaviors.get? node.templateId = none := by
      rw [get?_recorded, absent, Option.map_none]
    rw [Visit.invocations, List.map_nil, List.append_nil]
    exact Visits.bare hget
  | @tried behavior answers answer scope present tries final =>
    have hget : runner.recorded.behaviors.get? node.templateId =
        some (note node.templateId behavior) := by
      rw [get?_recorded, present, Option.map_some]
    have hvisits : Visits runner.recorded context (desk.withRecord record) node ⟨node, answers⟩ _ :=
      .tried hget (tries.noted node.templateId record) final
    cases hj : judged node.id answer with
    | ok output =>
      rw [hj] at hvisits
      exact hvisits
    | error failure =>
      rw [hj] at hvisits
      exact hvisits

theorem Tours.recorded (h : Tours runner context desk nodes visits failure last)
    (record : List Invocation) : Tours runner.recorded context (desk.withRecord record) nodes visits
      failure (last.withRecord (record ++ visits.flatMap (Visit.invocations context))) := by
  induction h generalizing record with
  | nil => simpa using Tours.nil
  | skipped off later ih => exact .skipped off (ih record)
  | @cons desk between last node nodes visit visits failure on here well later ih =>
    have hlater := ih (record ++ visit.invocations context)
    rw [List.append_assoc] at hlater
    exact .cons on (here.recorded record) well hlater
  | failed nodes on here ill => simpa using Tours.failed nodes on (here.recorded record) ill

end Runner
end Workflow
end Automation
