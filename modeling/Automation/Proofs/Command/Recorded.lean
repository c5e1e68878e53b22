import Automation.Command
import Automation.Proofs.Routine.Alone

/-!
# Recorded calls

What a dispatch does when nothing else touches the world, and a registry that writes down every call
of a handler before it passes the call on. The record stands beside the state of the handlers, so
the handlers cannot see it, and a recorded dispatch does what the dispatch does.
-/
namespace Automation

namespace Dict

variable {κ α β : Type}

/-- The entries with other values under the same keys. -/
def map (f : κ → α → β) (d : Dict κ α) : Dict κ β :=
  ⟨d.entries.map fun entry => (entry.1, f entry.1 entry.2), by
    rw [List.map_map]
    exact d.nodup⟩

theorem get?_map [DecidableEq κ] (f : κ → α → β) (d : Dict κ α) (key : κ) :
    (d.map f).get? key = (d.get? key).map (f key) := by
  obtain ⟨entries, hn⟩ := d
  simp only [get?, map]
  clear hn
  induction entries with
  | nil => rfl
  | cons entry rest ih =>
    by_cases h : entry.1 = key
    · simp [h]
    · simpa [h] using ih

end Dict

/-- A call of a handler. -/
structure Call where
  command : String
  arguments : List Json

/-- A world with an empty record of calls beside the state of its handlers. -/
def World.withRecord {η : Type} (world : World η) : World (η × List Call) :=
  { world with handlers := (world.handlers, []) }

namespace Registry

open Routine

variable {η : Type}

theorem isPart_handlers : IsPart World.handlers (@World.withHandlers η) :=
  ⟨fun _ _ => rfl, fun _ => rfl, fun _ _ _ => rfl⟩

/-- A call of a name without a handler is counted and no more. -/
theorem runAlone_dispatch_of_none {registry : Registry η} {name : String}
    (h : registry.handlers.get? name = none) (args : List Json) (world : World η) :
    (registry.dispatch name args).runAlone world =
      ⟨.ok (.ok .unknown), world.countUnknown, []⟩ := by
  rw [dispatch, h]
  rfl

/-- A call of a handler is a run of the handler on its own state. -/
theorem runAlone_dispatch_of_some {registry : Registry η} {name : String} {handler : Handler η}
    (h : registry.handlers.get? name = some handler) (args : List Json) (world : World η) :
    (registry.dispatch name args).runAlone world =
      let ending := (handler args).runAlone world.handlers
      ⟨ending.outcome.map fun result => result.map .handled, world.withHandlers ending.state,
        ending.pauses⟩ := by
  rw [dispatch, h]
  simp only [runAlone_bind, runAlone_within isPart_handlers]
  generalize (handler args).runAlone world.handlers = ending
  obtain ⟨outcome, state, pauses⟩ := ending
  cases outcome with
  | ok result => simp [Except.map]
  | error message => rfl

/-- The handler with its calls written down. -/
def note (name : String) (handler : Handler η) : Handler (η × List Call) := fun args => do
  Routine.modify fun (handlers, calls) => (handlers, calls ++ [⟨name, args⟩])
  (handler args).within Prod.fst fun (_, calls) handlers => (handlers, calls)

/-- The registry with the calls of all its handlers written down, in their order. -/
def recorded (registry : Registry η) : Registry (η × List Call) :=
  ⟨registry.handlers.map note⟩

theorem get?_recorded (registry : Registry η) (name : String) :
    registry.recorded.handlers.get? name = (registry.handlers.get? name).map (note name) :=
  Dict.get?_map note registry.handlers name

theorem runAlone_note (name : String) (handler : Handler η) (args : List Json)
    (noted : η × List Call) : (note name handler args).runAlone noted =
      let ending := (handler args).runAlone noted.1
      ⟨ending.outcome, (ending.state, noted.2 ++ [⟨name, args⟩]), ending.pauses⟩ := by
  have hpart : IsPart Prod.fst fun ((_, noted) : η × List Call) handlers => (handlers, noted) :=
    ⟨fun _ _ => rfl, fun _ => rfl, fun _ _ _ => rfl⟩
  rw [note, runAlone_modify_bind, runAlone_within hpart]

/-- A recorded dispatch does what the dispatch does, and a handler that is called leaves its call at
the end of the record. -/
theorem runAlone_dispatch_recorded (registry : Registry η) (name : String) (args : List Json)
    (world : World (η × List Call)) :
    let plain := (registry.dispatch name args).runAlone { world with handlers := world.handlers.1 }
    let calls := world.handlers.2 ++ if registry.contains name then [⟨name, args⟩] else []
    (registry.recorded.dispatch name args).runAlone world =
      ⟨plain.outcome, { plain.state with handlers := (plain.state.handlers, calls) },
        plain.pauses⟩ := by
  intro plain calls
  have hget := registry.get?_recorded name
  cases h : registry.handlers.get? name with
  | none =>
    rw [h] at hget
    simp [plain, calls, runAlone_dispatch_of_none hget, runAlone_dispatch_of_none h, contains,
      Dict.contains, h, World.countUnknown]
  | some handler =>
    rw [h] at hget
    simp [plain, calls, runAlone_dispatch_of_some hget, runAlone_dispatch_of_some h, contains,
      Dict.contains, h, World.withHandlers, runAlone_note]

end Registry
end Automation
