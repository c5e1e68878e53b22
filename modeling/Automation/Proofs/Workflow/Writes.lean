import Automation.Proofs.Dict
import Automation.Proofs.Engine.Call
import Automation.Proofs.Routine.Path

/-!
# What a run writes

A run has the variables to itself: it starts from those of its workflow, and its nodes set one at a
time. What it leaves is what it started from with all that its nodes have set, in the order of the
nodes. Of the behaviours it is assumed that they set variables and do nothing else to them, which is
true of those that are always there.
-/
namespace Automation

open Routine

variable {η α β : Type}

/-- The variables with others set on top, one after the other. -/
def Variables.overlaid (vars : Variables) (writes : List (String × Json)) : Variables :=
  writes.foldl (fun vars write => vars.insert write.1 write.2) vars

theorem Variables.overlaid_append (vars : Variables) (writes more : List (String × Json)) :
    vars.overlaid (writes ++ more) = (vars.overlaid writes).overlaid more :=
  List.foldl_append

namespace Behavior

/-- A commit that sets one variable, or leaves the variables alone. -/
def Sets (update : Scope η → Scope η) : Prop :=
  ∀ scope, (update scope).2 = scope.2 ∨ ∃ name value, (update scope).2 = scope.2.insert name value

/-- The behaviour does nothing to the variables but set them. -/
def SetsOnly (behavior : Behavior η) : Prop := ∀ config, Commits Sets (behavior config)

/-- A routine with variables of its own comes to an end by these steps in the world, has set these
variables by then, and leaves all of them like this. -/
inductive Sets.Ends : Routine (Scope η) α → Variables → List (World η × World η) →
    List (String × Json) → Except String α → Variables → Prop where
  | done (vars : Variables) (a : α) : Ends (.done a) vars [] [] (.ok a) vars
  | crash (vars : Variables) (message : String) :
      Ends (.crash message) vars [] [] (.error message) vars
  | keep {update : Scope η → Scope η} {next : Scope η → Routine (Scope η) α}
      {vars left : Variables} {steps : List (World η × World η)} {writes : List (String × Json)}
      {outcome : Except String α} (world : World η) (hu : (update (world, vars)).2 = vars)
      (h : Ends (next (world, vars)) vars steps writes outcome left) :
      Ends (.commit update next) vars ((world, (update (world, vars)).1) :: steps) writes outcome
        left
  | set {update : Scope η → Scope η} {next : Scope η → Routine (Scope η) α}
      {vars left : Variables} {steps : List (World η × World η)} {writes : List (String × Json)}
      {outcome : Except String α} (world : World η) (name : String) (value : Json)
      (hu : (update (world, vars)).2 = vars.insert name value)
      (h : Ends (next (world, vars)) (vars.insert name value) steps writes outcome left) :
      Ends (.commit update next) vars ((world, (update (world, vars)).1) :: steps)
        ((name, value) :: writes) outcome left
  | pause {length : Duration} {next : Routine (Scope η) α} {vars left : Variables}
      {steps : List (World η × World η)} {writes : List (String × Json)}
      {outcome : Except String α} (world : World η)
      (h : Ends next vars steps writes outcome left) :
      Ends (.pause length next) vars ((world, world) :: steps) writes outcome left

section Builtin

theorem commits_onWorld (p : Routine (World η) α) : Commits Sets (onWorld p) :=
  commits_within (fun _ _ => Or.inl rfl) p

theorem commits_setVariable (name : String) (value : Json) :
    Commits Sets (setVariable name value : Routine (Scope η) Unit) :=
  .commit (fun _ => Or.inr ⟨name, value, rfl⟩) fun _ => .done _

theorem setsOnly_forward (registry : Registry η) (command : String) (fields : List String) :
    SetsOnly (forward registry command fields) := by
  intro config
  refine (commits_onWorld _).bind fun result => ?_
  rcases result with _ | _ | _
  · exact .done _
  · exact .done _
  · exact .done _

theorem setsOnly_delay : SetsOnly (delay : Behavior η) := by
  intro config
  unfold delay
  dsimp only
  split
  · exact .done _
  · split
    · exact .pause (.done _)
    · exact .done _

theorem setsOnly_randomNumber : SetsOnly (randomNumber : Behavior η) := by
  intro config
  refine (commits_onWorld _).bind fun value => ?_
  cases nameField? config "variable" with
  | none => exact .done _
  | some name => exact (commits_setVariable name _).bind fun _ => .done _

theorem setsOnly_assign : SetsOnly (assign : Behavior η) := by
  intro config
  unfold assign
  cases nameField? config "name" with
  | none => exact .done _
  | some name => exact (commits_setVariable name _).bind fun _ => .done _

/-- The behaviours that are always there only set variables. -/
theorem setsOnly_builtin (registry : Registry η) {template : String} {behavior : Behavior η}
    (h : (builtin registry).get? template = some behavior) : behavior.SetsOnly := by
  have hmem := Dict.mem_of_get?_ofList h
  simp only [List.mem_cons, List.not_mem_nil, or_false, Prod.mk.injEq] at hmem
  rcases hmem with ⟨-, rfl⟩ | ⟨-, rfl⟩ | ⟨-, rfl⟩ | ⟨-, rfl⟩ | ⟨-, rfl⟩ | ⟨-, rfl⟩ | ⟨-, rfl⟩ |
    ⟨-, rfl⟩
  · exact setsOnly_forward registry "switchScene" ["sceneName"]
  · exact setsOnly_forward registry "playSound" ["sound", "volume"]
  · exact setsOnly_forward registry "showAlert" ["title", "message", "duration"]
  · exact setsOnly_forward registry "speak" ["text"]
  · exact setsOnly_delay
  · exact setsOnly_randomNumber
  · exact setsOnly_assign
  · exact fun _ => .done _

end Builtin

end Behavior

namespace Workflow.Runner

open Behavior

/-- The behaviours of the nodes only set variables. -/
def SetsOnly (runner : Runner η) : Prop :=
  ∀ template behavior, runner.behaviors.get? template = some behavior → behavior.SetsOnly

/-- All tries of a node, each on the variables that the one before it left. -/
def attempts (runner : Runner η) (context : Context) (node : Node) (behavior : Behavior η) :
    Routine (Scope η) (Except NodeFailure Json) :=
  retrying runner.retries node.id (behavior (Placeholder.renderValue context node.config))
    runner.retries.maxRetries 0

/-- What the nodes of a run have set, in their order: a node that ran has set variables on what the
nodes before it left, in steps of its own. The run ends with the first node that failed. -/
inductive Notebook (runner : Runner η) (context : Context) :
    List Node → Variables → List (World η × World η) → List (String × Json) → Prop where
  | nil (vars : Variables) : Notebook runner context [] vars [] []
  /-- A node that is not enabled does nothing, and one without a behaviour is logged only. -/
  | pass {node : Node} {rest : List Node} {vars : Variables} {steps : List (World η × World η)}
      {writes : List (String × Json)}
      (hn : node.enabled = false ∨ runner.behaviors.get? node.templateId = none)
      (h : Notebook runner context rest vars steps writes) :
      Notebook runner context (node :: rest) vars steps writes
  | ran {node : Node} {rest : List Node} {behavior : Behavior η} {vars left : Variables}
      {own steps : List (World η × World η)} {mine writes : List (String × Json)} {output : Json}
      (he : node.enabled = true) (hb : runner.behaviors.get? node.templateId = some behavior)
      (ha : Sets.Ends (runner.attempts context node behavior) vars own mine (.ok (.ok output)) left)
      (h : Notebook runner context rest left steps writes) :
      Notebook runner context (node :: rest) vars (own ++ steps) (mine ++ writes)
  | failed {node : Node} {rest : List Node} {behavior : Behavior η} {vars left : Variables}
      {own : List (World η × World η)} {mine : List (String × Json)} {failure : NodeFailure}
      (he : node.enabled = true) (hb : runner.behaviors.get? node.templateId = some behavior)
      (ha : Sets.Ends (runner.attempts context node behavior) vars own mine (.ok (.error failure))
        left) :
      Notebook runner context (node :: rest) vars own mine

/-- The variables that a run sets, of whose steps these are some. A run whose nodes cannot be put in
an order sets none. -/
inductive Writes (runner : Runner η) (w : Workflow) (context : Context)
    (steps : List (World η × World η)) : List (String × Json) → Prop where
  | unordered {e : GraphError} (h : runner.orderedNodes w = .error e) :
      Writes runner w context steps []
  | ran {nodes : List Node} {own : List (World η × World η)} {writes : List (String × Json)}
      (h : runner.orderedNodes w = .ok nodes)
      (hn : Notebook runner context nodes w.vars own writes) (hs : own.Sublist steps) :
      Writes runner w context steps writes

section Desk

variable {runner : Runner η} {context : Context} {notes left : Notes}
  {steps : List (World η × World η)}

end Desk

end Workflow.Runner
end Automation
