import Automation.CommandLine
import Automation.Proofs.Dict
import Automation.Proofs.Routine.Printing
import Automation.Proofs.Rule.Deeds

/-!
# Echoes

A registry of echoes has a handler under every name that it is made of, and a handler prints its
call and no more. So a rule all of whose commands are among the names, but for the built-in wait,
meets no unknown command: every action prints its call or waits, in turn, up to the first wait that
is refused.
-/
namespace Automation

open Routine CommandLine

/-- A call as it is printed. -/
def Call.text (call : Call) : String :=
  call.command ++ "(" ++ String.intercalate ", " (call.arguments.map Json.compact) ++ ")"

section Commands

/-- What is left when repetitions are dropped is what was there. -/
theorem mem_foldl_distinct {x : String} (names seen : List String) :
    x ∈ names.foldl (fun seen name => if seen.contains name then seen else seen ++ [name]) seen ↔
      x ∈ seen ∨ x ∈ names := by
  induction names generalizing seen with
  | nil => simp
  | cons name rest ih =>
    rw [List.foldl_cons, ih, List.mem_cons]
    by_cases hseen : seen.contains name
    · have hmem : x = name → x ∈ seen := fun he => he ▸ List.contains_iff_mem.mp hseen
      rw [if_pos hseen]
      tauto
    · rw [if_neg hseen, List.mem_append, List.mem_singleton, or_assoc]

/-- Every action of a program calls one of its commands. -/
theorem Program.command_mem_commands {program : Program} {rule : Rule} (hr : rule ∈ program.rules)
    {action : Action} (ha : action ∈ rule.actions) : action.command ∈ program.commands := by
  rw [commands, mem_foldl_distinct]
  exact Or.inr (List.mem_map_of_mem (List.mem_flatMap_of_mem hr ha))

end Commands

/-- The handler of a name that is not among the registered stays. -/
theorem Registry.get?_foldl_register {η : Type} (handler : String → Handler η)
    (names : List String) (registry : Registry η) (name : String) :
    ((names.map fun name => (name, handler name)).foldl
      (fun registry entry => registry.register entry.1 entry.2) registry).handlers.get? name =
    if name ∈ names then some (handler name) else registry.handlers.get? name := by
  induction names generalizing registry with
  | nil => exact (if_neg List.not_mem_nil).symm
  | cons first rest ih =>
    rw [List.map_cons, List.foldl_cons, ih, Registry.register, Dict.get?_insert]
    by_cases hrest : name ∈ rest
    · rw [if_pos hrest, if_pos (List.mem_cons_of_mem _ hrest)]
    · rw [if_neg hrest]
      by_cases hfirst : first = name
      · rw [if_pos hfirst, hfirst, if_pos List.mem_cons_self]
      · rw [if_neg hfirst, if_neg (by simp [hrest, Ne.symm hfirst])]

/-- The handler of a registered name is an echo. -/
theorem get?_echoes {names : List String} {name : String} (h : name ∈ names) :
    (echoes names).handlers.get? name = some (echo name) :=
  (Registry.get?_foldl_register echo names Registry.empty name).trans (if_pos h)

theorem prints_dispatch {names : List String} {name : String} (h : name ∈ names)
    (args : List Json) :
    Prints World.handlers ((echoes names).dispatch name args) [] [Call.text ⟨name, args⟩]
      (.ok (.handled .null)) := by
  have hecho : Prints (fun lines : Transcript => lines) (echo name args) []
      [Call.text ⟨name, args⟩] (.ok .null) := .print (fun _ => rfl) fun _ => .done _
  rw [Registry.dispatch, get?_echoes h]
  exact (hecho.within Registry.isPart_handlers).andThen (.done _)

namespace Rule

/-- The calls that actions stand for, as they are printed; a wait is no call. -/
def printed (context : Context) (actions : List Action) : List String :=
  (actions.filter fun action => action.command ≠ Action.waitName).map fun action =>
    (action.call context).text

/-- A run without unknown commands, and all that it prints: the calls of the actions that it
completes. -/
structure Echoed (context : Context) (rule : Rule) (outcome : Outcome) (lines : List String) :
    Prop where
  unknown : outcome.unknown = []
  /-- A run that does not fail completes all actions, ... -/
  whole : outcome.failure = none → outcome.completed = rule.actions.length
  /-- ... and one that fails does so at a wait. -/
  stopped : ∀ failure, outcome.failure = some failure →
    failure.index = outcome.completed ∧ failure.command = Action.waitName ∧
      ∃ action, rule.actions[failure.index]? = some action ∧ action.command = Action.waitName ∧
        Action.waitLength (action.ready context) = .error failure.message
  lines : lines = printed context (rule.actions.take outcome.completed)

section Run

variable {names : List String} (context : Context)

/-- An action waits, or it is refused to, or it prints its call. -/
theorem prints_perform {action : Action}
    (known : action.command ≠ Action.waitName → action.command ∈ names) :
    (action.command = Action.waitName ∧ ∃ message,
      Action.waitLength (action.ready context) = .error message ∧
      Prints World.handlers (Action.perform (echoes names) action.command (action.ready context))
        [] [] (.error message)) ∨
    ∃ pauses, pauses.length ≤ 1 ∧
      Prints World.handlers (Action.perform (echoes names) action.command (action.ready context))
        pauses (printed context [action]) (.ok (.handled .null)) := by
  by_cases hwait : action.command = Action.waitName
  · have hprinted : printed context [action] = [] := by simp [printed, hwait]
    rw [Action.perform, if_pos hwait, hprinted]
    cases hlength : Action.waitLength (action.ready context) with
    | error message => exact Or.inl ⟨hwait, message, rfl, .done _⟩
    | ok length => exact Or.inr ⟨[length], Nat.le_refl 1, .pause (.done _)⟩
  · have hprinted : printed context [action] = [(action.call context).text] := by
      simp [printed, hwait]
    rw [Action.perform, if_neg hwait, hprinted, Action.map_toJson_ready]
    exact Or.inr ⟨[], Nat.zero_le 1, (prints_dispatch (known hwait) _).andThen (.done _)⟩

/-- The actions that are left print and wait after those that have been completed. -/
theorem prints_runFrom {rule : Rule} (earlier : List Action) {rest : List Action}
    (he : rule.actions = earlier ++ rest)
    (known : ∀ action ∈ rest, action.command ≠ Action.waitName → action.command ∈ names) :
    ∃ outcome pauses lines,
      Prints World.handlers (runFrom (echoes names) context ⟨earlier.length, [], none⟩ rest)
        pauses lines outcome ∧ pauses.length ≤ rest.length ∧
      Echoed context rule outcome (printed context earlier ++ lines) := by
  induction rest generalizing earlier with
  | nil =>
    rw [List.append_nil] at he
    refine ⟨_, [], [], .done _, Nat.le_refl 0, rfl, fun _ => congrArg List.length he.symm, nofun,
      ?_⟩
    rw [he, List.take_length, List.append_nil]
  | cons action rest ih =>
    rcases prints_perform context (known action List.mem_cons_self) with
      ⟨hwait, message, hlength, hprints⟩ | ⟨first, hfirst, hprints⟩
    · -- the wait is refused, and the rest of the rule is left out
      refine ⟨⟨earlier.length, [], some ⟨earlier.length, action.command, message⟩⟩, [], [],
        hprints.andThen (.done _), Nat.zero_le _, rfl, nofun, ?_, ?_⟩
      · intro failure hfailure
        obtain rfl := Option.some.inj hfailure
        refine ⟨rfl, hwait, action, ?_, hwait, hlength⟩
        rw [he, List.getElem?_append_right (Nat.le_refl _), Nat.sub_self, List.getElem?_cons_zero]
      · rw [he, List.take_left, List.append_nil]
    · rw [List.append_cons] at he
      obtain ⟨outcome, pauses, lines, hrest, hpauses, hechoed⟩ :=
        ih _ he fun other hother => known other (List.mem_cons_of_mem _ hother)
      rw [List.length_append, List.length_singleton] at hrest
      refine ⟨outcome, first ++ pauses, printed context [action] ++ lines, hprints.bind hrest, ?_,
        ?_⟩
      · rw [List.length_append, List.length_cons]
        omega
      · have hsplit : printed context (earlier ++ [action]) =
            printed context earlier ++ printed context [action] := by
          rw [printed, List.filter_append, List.map_append]
          rfl
        rw [hsplit, List.append_assoc] at hechoed
        exact hechoed

/-- A run of a rule whose commands are known, but for the built-in wait. -/
theorem prints_run {rule : Rule}
    (known : ∀ action ∈ rule.actions, action.command ≠ Action.waitName →
      action.command ∈ names) :
    ∃ outcome pauses lines, Prints World.handlers (rule.run (echoes names) context) pauses lines
      outcome ∧ pauses.length ≤ rule.actions.length ∧ Echoed context rule outcome lines :=
  prints_runFrom context [] rfl known

end Run
end Rule
end Automation
