import Automation.Proofs.Command.Recorded
import Automation.Proofs.Workflow.Configured
import Automation.Workflow.Run

/-!
# One action, one node

An action and the node that stands for it, run from worlds that are alike, do the same: they call
the same handler with the same arguments, or count the same unknown call, or pause as long. Where
the action fails the behaviour fails for good, so a node is never tried a second time and its
failure is told in the last entry of the log.
-/
namespace Automation

open Routine

variable {η : Type}

/-- Worlds that agree in what commands do; their clocks may differ. -/
structure World.Alike (a b : World η) : Prop where
  handlers : b.handlers = a.handlers
  unknownDispatches : b.unknownDispatches = a.unknownDispatches

theorem World.Alike.countUnknown {a b : World η} (h : a.Alike b) :
    a.countUnknown.Alike b.countUnknown :=
  ⟨h.handlers, congrArg (· + 1) h.unknownDispatches⟩

theorem World.Alike.withHandlers {a b : World η} (h : a.Alike b) (handlers : η) :
    (a.withHandlers handlers).Alike (b.withHandlers handlers) :=
  ⟨rfl, h.unknownDispatches⟩

/-- A dispatch does the same in worlds that are alike. -/
theorem Registry.agree_dispatch (registry : Registry η) (name : String) (args : List Json)
    {a b : World η} (h : a.Alike b) :
    Agree (fun r a r' b => r' = r ∧ a.Alike b) World.Alike
      ((registry.dispatch name args).runAlone a) ((registry.dispatch name args).runAlone b) := by
  cases hg : registry.handlers.get? name with
  | none =>
    rw [runAlone_dispatch_of_none hg, runAlone_dispatch_of_none hg]
    exact .finished ⟨rfl, h.countUnknown⟩ rfl
  | some handler =>
    rw [runAlone_dispatch_of_some hg, runAlone_dispatch_of_some hg, h.handlers]
    generalize (handler args).runAlone a.handlers = ending
    obtain ⟨outcome, state, pauses⟩ := ending
    cases outcome with
    | ok result => exact .finished ⟨rfl, h.withHandlers state⟩ rfl
    | error message => exact .crashed (h.withHandlers state) rfl

/-- A behaviour works where the action does, or fails for good where the action fails. -/
inductive SameVerdict : Except String Dispatch → Except NodeError Json → Prop where
  | works (dispatch : Dispatch) (output : Json) : SameVerdict (.ok dispatch) (.ok output)
  | fails (message reason : String) : SameVerdict (.error message) (.error (.fatal reason))

/-- An attempt at a node does what an action does. -/
def Enacts (action : Routine (World η) (Except String Dispatch))
    (attempt : Routine (Scope η) (Except NodeError Json)) : Prop :=
  ∀ (a : World η) (scope : Scope η), a.Alike scope.1 →
    Agree (fun r a r' scope => SameVerdict r r' ∧ a.Alike scope.1) (fun a scope => a.Alike scope.1)
      (action.runAlone a) (attempt.runAlone scope)

namespace Behavior

theorem isPart_world : IsPart Prod.fst fun (scope : Scope η) world => (world, scope.2) :=
  ⟨fun _ _ => rfl, fun _ => rfl, fun _ _ _ => rfl⟩

/-- A behaviour that forwards a command does what the command does. -/
theorem enacts_forward (registry : Registry η) {command : String} {fields : List String}
    {config : Json} {args : List Argument} (hc : command ≠ Action.waitName)
    (hf : forwardedArguments fields config = args.map Argument.toJson) :
    Enacts (Action.perform registry command args) (forward registry command fields config) := by
  intro a scope h
  rw [Action.perform, if_neg hc, forward, hf, runAlone_bind, runAlone_bind, onWorld]
  refine ((registry.agree_dispatch command _ h).within isPart_world).andThen ?_
  rintro _ a r scope ⟨rfl, h⟩
  cases r with
  | error e => exact .finished ⟨.fails _ _, h⟩ rfl
  | ok dispatch =>
    cases dispatch with
    | handled output => exact .finished ⟨.works _ _, h⟩ rfl
    | unknown => exact .finished ⟨.works _ _, h⟩ rfl

/-- A delay does what a wait does, if it is asked for the same time. -/
theorem enacts_delay (registry : Registry η) {config : Json} {args : List Argument}
    {seconds d : Double} (ha : args.head?.bind Argument.number? = some seconds)
    (hf : numberField? config "seconds" = some d)
    (hd : Duration.ofSeconds? d = Duration.ofSeconds? seconds) :
    Enacts (Action.perform registry Action.waitName args) (delay config) := by
  intro a scope h
  rw [Action.perform, if_pos rfl, Action.waitLength, ha, delay, hf]
  simp only [Option.getD_some, hd]
  cases Duration.ofSeconds? seconds with
  | none => exact .finished ⟨.fails _ _, h⟩ rfl
  | some length =>
    by_cases hz : length.nanos = 0
    · simp only [runAlone_bind, runAlone_sleep, Ending.andThen_ok, runAlone_pure, hz, ne_eq,
        not_true_eq_false, ↓reduceIte]
      exact .finished ⟨.works _ _, h⟩ (by simp [Duration.Lasts, hz])
    · simp only [runAlone_bind, runAlone_sleep, Ending.andThen_ok, runAlone_pure, hz, ne_eq,
        not_false_eq_true, ↓reduceIte]
      exact .finished ⟨.works _ _, h⟩ rfl

end Behavior

namespace Workflow

/-- What came of an action, and of all the tries at the node that stands for it. -/
inductive Settled (nodeId : String) : Except String Dispatch → Except NodeFailure Json → Prop where
  | works (dispatch : Dispatch) (output : Json) : Settled nodeId (.ok dispatch) (.ok output)
  | fails (message reason : String) :
      Settled nodeId (.error message) (.error (.fatal nodeId reason))

/-- An attempt that works or fails for good is not tried again, whatever the policy, so the tries do
what the one attempt does. -/
theorem agree_retrying {action : Routine (World η) (Except String Dispatch)}
    {attempt : Routine (Scope η) (Except NodeError Json)} (h : Enacts action attempt)
    (policy : RetryPolicy) (nodeId : String) (left failures : Nat) {a : World η} {scope : Scope η}
    (ha : a.Alike scope.1) :
    Agree (fun r a r' scope => Settled nodeId r r' ∧ a.Alike scope.1)
      (fun a scope => a.Alike scope.1) (action.runAlone a)
      ((retrying policy nodeId attempt left failures).runAlone scope) := by
  rw [retrying.eq_def, runAlone_bind]
  refine (h a scope ha).follow ?_
  rintro r a r' scope ⟨hverdict, h⟩
  cases hverdict with
  | works dispatch output => exact ⟨_, _, rfl, .works _ _, h⟩
  | fails message reason => exact ⟨_, _, rfl, .fails _ _, h⟩

namespace Runner

theorem isPart_scope : IsPart Desk.scope (@Desk.withScope η) :=
  ⟨fun _ _ => rfl, fun _ => rfl, fun _ _ _ => rfl⟩

/-- The last entry of the log tells of an error of the node. -/
def Blames (node : Node) (execution : Execution) : Prop :=
  ∃ entry, execution.logs.getLast? = some entry ∧ entry.level = .error ∧
    entry.nodeId = some node.id

/-- What came of an action, and of the node that stands for it. -/
inductive Came (node : Node) (execution : Execution) :
    Except String Dispatch → Option NodeFailure → Prop where
  | through (dispatch : Dispatch) : Came node execution (.ok dispatch) none
  | failed (message reason : String) (blames : Blames node execution) :
      Came node execution (.error message) (some (.fatal node.id reason))

/-- A node that stands for an action: its behaviour is there and does what the action does. -/
structure StandsFor (registry : Registry η) (context : Context) (action : Action) (node : Node) :
    Prop where
  enabled : node.enabled = true
  enacts : ∃ behavior, (Behavior.builtin registry).get? node.templateId = some behavior ∧
    Enacts (Action.perform registry action.command (action.arguments.map (Argument.render context)))
      (behavior (Placeholder.renderValue context node.config))

/-- Writing to the log reads the clock and leaves the rest of the world alone. -/
theorem alike_stamp {a : World η} {desk : Desk η} (h : a.Alike desk.1)
    (change : Execution → Instant → Execution) : a.Alike (Desk.stamp change desk).1 :=
  ⟨h.handlers, h.unknownDispatches⟩

/-- A node that stands for an action does what the action does. -/
theorem agree_runNode {runner : Runner η} {registry : Registry η} {context : Context}
    {action : Action} {node : Node} (hb : runner.behaviors = Behavior.builtin registry)
    (h : StandsFor registry context action node) {a : World η} {desk : Desk η}
    (ha : a.Alike desk.1) :
    Agree (fun r a result desk => Came node desk.2.execution r result ∧ a.Alike desk.1)
      (fun a desk => a.Alike desk.1)
      ((Action.perform registry action.command
        (action.arguments.map (Argument.render context))).runAlone a)
      ((runner.runNode context node).runAlone desk) := by
  obtain ⟨behavior, hget, henacts⟩ := h.enacts
  rw [runNode, log, stamp, runAlone_modify_bind]
  simp only [hb, hget]
  have hstart := alike_stamp ha fun execution now =>
    execution.log now .info (some node.id) ("Executing node: " ++ node.name)
  generalize Desk.stamp _ desk = desk at hstart ⊢
  have hscope : a.Alike desk.scope.1 := hstart
  have htries := agree_retrying henacts runner.retries node.id runner.retries.maxRetries 0 hscope
  rw [runAlone_bind]
  refine (htries.within isPart_scope).follow ?_
  rintro r a r' desk ⟨hsettled, h⟩
  cases hsettled with
  | works dispatch output => exact ⟨_, _, rfl, .through _, h.handlers, h.unknownDispatches⟩
  | fails message reason =>
    have hblames : ∀ now text, Blames node (desk.2.execution.log now .error (some node.id) text) :=
      fun now text => ⟨_, List.getLast?_concat, rfl, rfl⟩
    exact ⟨_, _, rfl, .failed _ _ (hblames _ _), h.handlers, h.unknownDispatches⟩

end Runner
end Workflow
end Automation
