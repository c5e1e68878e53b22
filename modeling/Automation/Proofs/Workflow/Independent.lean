import Automation.Proofs.Routine.Always
import Automation.Proofs.Workflow.Writes

/-!
# Nodes that do not depend on each other

If the behaviour of a node is a function of its configuration, then what the node contributes to a
run is settled before the run begins: that it fails, or its output and the variables that it sets. A
run completes if and only if no node fails, and then it leaves all outputs and all variables, set in
the order of the run. Where different nodes set different variables the order makes no difference to
what is found under a name, so the stored order and that of the connections come to the same.
-/
namespace Automation

namespace Variables

/-- What is found under each name when entries are set on top of what was found before. -/
def laid (writes : List (String × Json)) (view : String → Option Json) : String → Option Json :=
  writes.foldl (fun view write => Function.update view write.1 (some write.2)) view

theorem laid_cons (write : String × Json) (writes : List (String × Json))
    (view : String → Option Json) :
    laid (write :: writes) view = laid writes (Function.update view write.1 (some write.2)) := rfl

theorem get?_overlaid (vars : Variables) (writes : List (String × Json)) :
    (vars.overlaid writes).get? = laid writes vars.get? := by
  induction writes generalizing vars with
  | nil => rfl
  | cons write writes ih =>
    have hinsert : (vars.insert write.1 write.2).get? =
        Function.update vars.get? write.1 (some write.2) := by
      funext name
      rw [Dict.get?_insert, Function.update_apply]
      simp only [eq_comm]
    rw [laid_cons, ← hinsert, ← ih]
    rfl

section Views

variable {writes more : List (String × Json)} {view other : String → Option Json} {name : String}

theorem laid_of_notMem (h : name ∉ writes.map Prod.fst) : laid writes view name = view name := by
  induction writes generalizing view with
  | nil => rfl
  | cons write writes ih =>
    rw [List.map_cons, List.mem_cons, not_or] at h
    rw [laid_cons, ih h.2, Function.update_of_ne h.1]

/-- What is found under a name depends on what was found under this name only. -/
theorem laid_congr (h : view name = other name) :
    laid writes view name = laid writes other name := by
  induction writes generalizing view other with
  | nil => exact h
  | cons write writes ih =>
    rw [laid_cons, laid_cons]
    apply ih
    by_cases hn : name = write.1
    · subst hn
      rw [Function.update_self, Function.update_self]
    · rw [Function.update_of_ne hn, Function.update_of_ne hn, h]

/-- Entries with different names can be set in either order. -/
theorem laid_comm (h : ∀ name ∈ writes.map Prod.fst, name ∉ more.map Prod.fst)
    (view : String → Option Json) :
    laid more (laid writes view) = laid writes (laid more view) := by
  funext name
  by_cases hn : name ∈ writes.map Prod.fst
  · rw [laid_of_notMem (h name hn)]
    exact laid_congr (laid_of_notMem (h name hn)).symm
  · rw [laid_of_notMem hn]
    exact laid_congr (laid_of_notMem hn)

end Views

/-- What the members of a list set comes to the same in every order of the list, if different
members set different names. -/
theorem get?_overlaid_of_perm {ι : Type} {members others : List ι} (hp : members.Perm others)
    (writes : ι → List (String × Json))
    (hd : ∀ a ∈ members, ∀ b ∈ members, a ≠ b →
      ∀ name ∈ (writes a).map Prod.fst, name ∉ (writes b).map Prod.fst) (vars : Variables) :
    (vars.overlaid (members.flatMap writes)).get? =
      (vars.overlaid (others.flatMap writes)).get? := by
  rw [get?_overlaid, get?_overlaid, laid, laid, List.foldl_flatMap, List.foldl_flatMap]
  refine hp.foldl_eq' (fun a ha b hb view => ?_) _
  by_cases hab : a = b
  · rw [hab]
  · exact laid_comm (hd a ha b hb hab) view

end Variables

/-- What a node contributes to a run: how its behaviour ends, and the variables that it sets. -/
structure Contribution where
  outcome : Except String (Except NodeError Json)
  writes : List (String × Json)

namespace Contribution

/-- The output, unless the behaviour fails or crashes. -/
def output? (c : Contribution) : Option Json :=
  match c.outcome with
  | .ok (.ok output) => some output
  | _ => none

end Contribution

open Routine

variable {η : Type}

/-- Whatever others do meanwhile, and whatever the variables are, the attempt makes this
contribution. -/
def Contributes (attempt : Routine (Scope η) (Except NodeError Json)) (c : Contribution) : Prop :=
  ∀ vars pauses ending, Course (attempt.withOwn vars) pauses ending →
    ending = c.outcome.map fun result => (result, Variables.overlaid vars c.writes)

namespace Contributes

variable {attempt : Routine (Scope η) (Except NodeError Json)} {c : Contribution}

theorem always (h : Contributes attempt c) {output : Json} (ho : c.output? = some output)
    (vars : Variables) :
    Always attempt vars fun result left => result = .ok output ∧ left = vars.overlaid c.writes := by
  intro pauses ending hc
  have hending := h vars pauses ending hc
  obtain ⟨outcome, writes⟩ := c
  match outcome, ho with
  | .ok (.ok _), rfl => exact ⟨_, _, hending, rfl, rfl⟩

theorem leaves_error (h : Contributes attempt c) (ho : c.output? = none) (vars : Variables) :
    Leaves attempt vars fun result _ => ∃ e, result = .error e := by
  intro pauses result left hc
  have hending := h vars pauses _ hc
  obtain ⟨outcome, writes⟩ := c
  match outcome, ho with
  | .ok (.error e), _ =>
    cases hending
    exact ⟨e, rfl⟩
  | .error message, _ => cases hending

end Contributes

namespace Workflow

section Tries

variable {policy : RetryPolicy} {nodeId : String}
  {attempt : Routine (Scope η) (Except NodeError Json)}

/-- What works is not tried again. -/
theorem always_retrying {vars : Variables} {output : Json} {post : Variables → Prop}
    (h : Always attempt vars fun result left => result = .ok output ∧ post left)
    (left failures : Nat) :
    Always (retrying policy nodeId attempt left failures) vars fun result left =>
      result = .ok output ∧ post left := by
  rw [retrying.eq_def]
  refine h.bind ?_
  rintro _ left ⟨rfl, hleft⟩
  exact always_pure ⟨rfl, hleft⟩

/-- What fails every time has failed after the last try. -/
theorem leaves_retrying (h : ∀ vars, Leaves attempt vars fun result _ => ∃ e, result = .error e)
    (left failures : Nat) (vars : Variables) :
    Leaves (retrying policy nodeId attempt left failures) vars fun result _ =>
      ∃ failure, result = .error failure := by
  induction left generalizing failures vars with
  | zero =>
    rw [retrying]
    refine (h vars).bind ?_
    rintro _ kept ⟨e, rfl⟩
    cases e with
    | fatal message => exact leaves_pure ⟨_, rfl⟩
    | retryable message => exact leaves_pure ⟨_, rfl⟩
  | succ left ih =>
    rw [retrying]
    refine (h vars).bind ?_
    rintro _ kept ⟨e, rfl⟩
    cases e with
    | fatal message => exact leaves_pure ⟨_, rfl⟩
    | retryable message => exact leaves_pause (ih _ kept)

end Tries

namespace Runner

/-- A node that is enabled and has a behaviour. -/
def acts (runner : Runner η) (node : Node) : Bool :=
  node.enabled && runner.behaviors.contains node.templateId

/-- The output of a node, under its identifier. -/
def outputs (contribution : Node → Contribution) (node : Node) : List (String × Json) :=
  ((contribution node).output?.map fun output => (node.id, output)).toList

/-- A node makes its contribution whenever it runs. -/
def Settles (runner : Runner η) (context : Context) (contribution : Node → Contribution)
    (node : Node) : Prop :=
  node.enabled → ∀ behavior, runner.behaviors.get? node.templateId = some behavior →
    Contributes (behavior (Placeholder.renderValue context node.config)) (contribution node)

/-- The run goes on, with outputs and variables added to its notes. -/
structure Added (notes : Notes) (outputs writes : List (String × Json))
    (failure : Option NodeFailure) (left : Notes) : Prop where
  failure : failure = none
  vars : left.vars = notes.vars.overlaid writes
  results : left.execution.results = Variables.overlaid notes.execution.results outputs

theorem Added.trans {a b c : Notes} {outputs writes more further : List (String × Json)}
    {failure : Option NodeFailure} (h : Added a outputs writes none b)
    (hn : Added b more further failure c) :
    Added a (outputs ++ more) (writes ++ further) failure c := by
  refine ⟨hn.failure, ?_, ?_⟩
  · rw [hn.vars, h.vars, Variables.overlaid_append]
  · rw [hn.results, h.results, Variables.overlaid_append]

section Nodes

variable {runner : Runner η} {context : Context} {contribution : Node → Contribution} {node : Node}
  {notes : Notes}

theorem always_log {level : Execution.Level} {nodeId : Option String} {message : String} :
    Always (log level nodeId message : Routine (Desk η) Unit) notes fun _ left =>
      Added notes [] [] none left :=
  always_modify fun _ => ⟨rfl, rfl, rfl⟩

theorem always_scope {α : Type} {p : Routine (Scope η) α} {post : α → Variables → Prop}
    (h : Always p notes.vars post) :
    Always (p.within Desk.scope Desk.withScope) notes fun a left =>
      ∃ vars, post a vars ∧ left = { notes with vars } :=
  h.within isPart_vars fun _ vars hp => ⟨vars, hp, rfl⟩

theorem leaves_scope_of {α : Type} {p : Routine (Scope η) α} {post : α → Prop}
    (h : Leaves p notes.vars fun a _ => post a) :
    Leaves (p.within Desk.scope Desk.withScope) notes fun a _ => post a :=
  h.within isPart_vars fun _ _ hp => hp

/-- A node without a behaviour adds nothing. -/
theorem always_runNode_of_none (hb : runner.behaviors.get? node.templateId = none) :
    Always (runner.runNode context node) notes (Added notes [] []) := by
  refine always_log.bind fun _ middle hm => ?_
  simp only [hb]
  refine always_log.bind fun _ left hl => ?_
  exact always_pure (hm.trans hl)

section Behaves

variable {behavior : Behavior η} (hb : runner.behaviors.get? node.templateId = some behavior)
  (hc : Contributes (behavior (Placeholder.renderValue context node.config)) (contribution node))
include hb hc

/-- A node whose behaviour works adds its contribution. -/
theorem always_runNode {output : Json} (ho : (contribution node).output? = some output) :
    Always (runner.runNode context node) notes
      (Added notes (outputs contribution node) (contribution node).writes) := by
  refine always_log.bind fun _ middle hm => ?_
  simp only [hb]
  refine (always_scope (always_retrying (hc.always ho middle.vars) _ _)).bind ?_
  rintro _ tried ⟨vars, ⟨rfl, rfl⟩, rfl⟩
  have hset : Always (Routine.modify (Desk.setResult node.id output) : Routine (Desk η) Unit)
      { middle with vars := middle.vars.overlaid (contribution node).writes } fun _ left =>
        Added middle (outputs contribution node) (contribution node).writes none left := by
    refine always_modify fun _ => ⟨rfl, rfl, ?_⟩
    simp only [outputs, ho]
    rfl
  refine hset.bind fun _ left hl => ?_
  exact always_pure (hm.trans hl)

/-- A node whose behaviour fails ends the run. -/
theorem leaves_runNode_failure (ho : (contribution node).output? = none) :
    Leaves (runner.runNode context node) notes fun failure _ => failure ≠ none := by
  refine (leaves_anything _ _).bind fun _ middle _ => ?_
  simp only [hb]
  refine (leaves_scope_of (leaves_retrying (hc.leaves_error ho) _ _ _)).bind ?_
  rintro _ tried ⟨failure, rfl⟩
  refine (leaves_anything _ _).bind fun _ left _ => ?_
  exact leaves_pure (Option.some_ne_none failure)

end Behaves

variable {nodes : List Node}

/-- If no node fails, every node that acts adds its contribution. -/
theorem always_runNodes (hc : ∀ node ∈ nodes, runner.Settles context contribution node)
    (hs : ∀ node ∈ nodes, runner.acts node → (contribution node).output?.isSome) :
    Always (runner.runNodes context nodes) notes
      (Added notes ((nodes.filter runner.acts).flatMap (outputs contribution))
        ((nodes.filter runner.acts).flatMap fun node => (contribution node).writes)) := by
  -- along the nodes still to run, from whatever notes those before them have left
  induction nodes generalizing notes with
  | nil => exact always_pure ⟨rfl, rfl, rfl⟩
  | cons node rest ih =>
    obtain ⟨hnode, hrest⟩ := List.forall_mem_cons.mp hc
    obtain ⟨hworks, hothers⟩ := List.forall_mem_cons.mp hs
    rw [runNodes]
    by_cases he : node.enabled
    · rw [if_pos he]
      cases hb : runner.behaviors.get? node.templateId with
      | none =>
        rw [List.filter_cons_of_neg (by simp [acts, Dict.contains, hb])]
        refine (always_runNode_of_none hb).bind fun failure middle hm => ?_
        obtain rfl := hm.failure
        exact (ih hrest hothers).mono fun _ _ hl => hm.trans hl
      | some behavior =>
        have hacts : runner.acts node := by simp [acts, Dict.contains, he, hb]
        obtain ⟨output, ho⟩ := Option.isSome_iff_exists.mp (hworks hacts)
        rw [List.filter_cons_of_pos hacts, List.flatMap_cons, List.flatMap_cons]
        refine (always_runNode hb (hnode he behavior hb) ho).bind fun failure middle hm => ?_
        obtain rfl := hm.failure
        exact (ih hrest hothers).mono fun _ _ hl => hm.trans hl
    · rw [if_neg he, List.filter_cons_of_neg (by simp [acts, he])]
      exact ih hrest hothers

/-- If a node fails the run does not come to its end, wherever the node stands. -/
theorem leaves_runNodes_failure (hm : node ∈ nodes) (hc : runner.Settles context contribution node)
    (ha : runner.acts node) (ho : (contribution node).output? = none) :
    Leaves (runner.runNodes context nodes) notes fun failure _ => failure ≠ none := by
  rw [acts, Bool.and_eq_true, Dict.contains, Option.isSome_iff_exists] at ha
  obtain ⟨he, behavior, hb⟩ := ha
  induction nodes generalizing notes with
  | nil => cases hm
  | cons first rest ih =>
    -- a node in front may fail as well, and then this one does not get to run
    have hlater : node ∈ rest → Leaves (runner.runNodes context (first :: rest)) notes
        fun failure _ => failure ≠ none := by
      intro hm
      rw [runNodes]
      split
      · refine (leaves_anything _ _).bind fun failure middle _ => ?_
        cases failure with
        | none => exact ih hm
        | some failure => exact leaves_pure (Option.some_ne_none failure)
      · exact ih hm
    rcases List.mem_cons.mp hm with rfl | hm
    · rw [runNodes, if_pos he]
      refine (leaves_runNode_failure hb (hc he behavior hb) ho).bind fun failure middle hf => ?_
      cases failure with
      | none => cases hf rfl
      | some failure => exact leaves_pure (Option.some_ne_none failure)
    · exact hlater hm

end Nodes

/-- A run that came to its end. -/
def Completes (outcome : Except String (Execution × Variables)) : Prop :=
  ∃ e vars, outcome = .ok (e, vars) ∧ e.status = .completed

section Run

variable {runner : Runner η} {w : Workflow} {context : Context}
  {contribution : Node → Contribution} {nodes : List Node}

/-- If no node fails, the run completes with what the nodes contribute. -/
theorem always_runOnDesk (hn : runner.orderedNodes w = .ok nodes)
    (hc : ∀ node ∈ nodes, runner.Settles context contribution node)
    (hs : ∀ node ∈ nodes, runner.acts node → (contribution node).output?.isSome) (notes : Notes) :
    Always (runner.runOnDesk w context) notes fun _ left => left.execution.status = .completed ∧
      Added notes ((nodes.filter runner.acts).flatMap (outputs contribution))
        ((nodes.filter runner.acts).flatMap fun node => (contribution node).writes) none left := by
  unfold runOnDesk
  rw [hn]
  refine (always_runNodes hc hs).bind fun failure left hl => ?_
  obtain rfl := hl.failure
  exact always_modify fun _ => ⟨rfl, rfl, hl.vars, hl.results⟩

/-- If a node fails, the run does not complete. -/
theorem leaves_runOnDesk_failure (hn : runner.orderedNodes w = .ok nodes) {node : Node}
    (hm : node ∈ nodes) (hc : runner.Settles context contribution node) (ha : runner.acts node)
    (ho : (contribution node).output? = none) (notes : Notes) :
    Leaves (runner.runOnDesk w context) notes fun _ left => left.execution.status ≠ .completed := by
  unfold runOnDesk
  rw [hn]
  refine (leaves_runNodes_failure hm hc ha ho).bind fun failure left hf => ?_
  cases failure with
  | none => cases hf rfl
  | some failure => exact leaves_modify fun _ => nofun

/-- What a run comes to is settled by what its nodes contribute: it completes if and only if none of
them fails, and then it has all their outputs and variables. -/
theorem run_settled (hn : runner.orderedNodes w = .ok nodes)
    (hc : ∀ node ∈ nodes, runner.Settles context contribution node) {started : Execution}
    {pauses : List Duration} {outcome : Except String (Execution × Variables)}
    (h : Course (runner.run w started context) pauses outcome) :
    (Completes outcome ↔
      ∀ node ∈ nodes, runner.acts node → (contribution node).output?.isSome) ∧
    ∀ e vars, outcome = .ok (e, vars) → e.status = .completed →
      e.results = Variables.overlaid started.results
        ((nodes.filter runner.acts).flatMap (outputs contribution)) ∧
      vars = w.vars.overlaid
        ((nodes.filter runner.acts).flatMap fun node => (contribution node).writes) := by
  by_cases hs : ∀ node ∈ nodes, runner.acts node → (contribution node).output?.isSome
  · have halways := always_runOnDesk hn hc hs ⟨w.vars, started⟩
    rcases course_bind h with ⟨message, hp, -⟩ | ⟨⟨_, notes⟩, before, after, hp, hlater, -⟩
    · obtain ⟨_, _, he, -⟩ := halways _ _ hp
      cases he
    · obtain ⟨_, left, he, hstatus, hadded⟩ := halways _ _ hp
      cases he
      cases hlater with
      | done =>
        refine ⟨iff_of_true ⟨_, _, rfl, hstatus⟩ hs, ?_⟩
        rintro e vars he -
        cases he
        exact ⟨hadded.results, hadded.vars⟩
  · have hincomplete : ∀ e vars, outcome = .ok (e, vars) → e.status ≠ .completed := by
      push Not at hs
      obtain ⟨node, hm, ha, ho⟩ := hs
      rintro e vars rfl
      rcases course_bind h with ⟨message, -, he⟩ | ⟨⟨_, notes⟩, before, after, hp, hlater, -⟩
      · cases he
      · cases hlater with
        | done =>
          exact leaves_runOnDesk_failure hn hm (hc node hm) ha (by simpa using ho) _ _ _ _ hp
    refine ⟨iff_of_false ?_ hs, fun e vars he hstatus => absurd hstatus (hincomplete e vars he)⟩
    rintro ⟨e, vars, he, hstatus⟩
    exact hincomplete e vars he hstatus

end Run

end Runner
end Workflow
end Automation
