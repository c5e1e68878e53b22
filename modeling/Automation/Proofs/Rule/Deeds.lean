import Automation.Proofs.Command.Recorded
import Automation.Proofs.Dict
import Automation.Rule.Run

/-!
# What a rule has done

A run of a rule as the deeds of its actions: what came of each, up to the first that failed. The
deeds are told by what an action is (a wait, a call of a handler, a call that nobody knows) and not
by what the run returns; the run's report, the calls of handlers, the count of unknown calls and the
time that went by are then read off the deeds.
-/
namespace Automation

open Routine

variable {η : Type}

/-- No handler crashes. -/
def Registry.CrashFree (registry : Registry η) : Prop :=
  ∀ name handler, registry.handlers.get? name = some handler → ∀ args, (handler args).Finishes

namespace Action

/-- The arguments of an action when it is carried out: the placeholders of texts are filled in, and
numbers stay. -/
def ready (context : Context) (action : Action) : List Argument :=
  action.arguments.map fun
    | .string s => .string (Placeholder.render context s)
    | .number d => .number d

/-- The call of a handler that the action stands for: texts with their placeholders filled in, and
numbers as the values that handlers are given. -/
def call (context : Context) (action : Action) : Call :=
  ⟨action.command, action.arguments.map fun
    | .string s => .string (Placeholder.render context s)
    | .number d => (Argument.number d).toJson⟩

theorem map_render (context : Context) (action : Action) :
    action.arguments.map (Argument.render context) = action.ready context :=
  List.map_congr_left fun argument _ => by cases argument <;> rfl

theorem map_toJson_ready (context : Context) (action : Action) :
    (action.ready context).map Argument.toJson = (action.call context).arguments := by
  rw [ready, call, List.map_map]
  exact List.map_congr_left fun argument _ => by cases argument <;> rfl

/-- The action calls a handler. A wait does not, not even if there is a handler of that name. -/
def Handled (registry : Registry η) (action : Action) : Prop :=
  action.command ≠ waitName ∧ registry.contains action.command

/-- The action names a command that nobody knows. Waiting is built in. -/
def Unknown (registry : Registry η) (action : Action) : Prop :=
  action.command ≠ waitName ∧ ¬ registry.contains action.command

instance (registry : Registry η) : DecidablePred (Handled registry) := fun action =>
  inferInstanceAs (Decidable (action.command ≠ waitName ∧ registry.contains action.command))

instance (registry : Registry η) : DecidablePred (Unknown registry) := fun action =>
  inferInstanceAs (Decidable (action.command ≠ waitName ∧ ¬ registry.contains action.command))

/-- What came of an action. -/
inductive Deed where
  | waited (length : Duration)
  | refused (message : String)
  | unknown
  | called (result : Except CommandError Json) (pauses : List Duration)

namespace Deed

/-- Why the action failed, if it did. -/
def failure? : Deed → Option String
  | waited _ | unknown | called (.ok _) _ => none
  | refused message => some message
  | called (.error e) _ => some e.message

def pauses : Deed → List Duration
  | waited length => [length]
  | refused _ | unknown => []
  | called _ pauses => pauses

/-- The length of a wait that was completed. -/
def wait? : Deed → Option Duration
  | waited length => some length
  | _ => none

/-- The time that a handler took for itself. -/
def own : Deed → List Duration
  | called _ pauses => pauses
  | _ => []

/-- What the run is told of the deed. -/
def answer : Deed → Except String Dispatch
  | waited _ => .ok (.handled .null)
  | refused message => .error message
  | unknown => .ok .unknown
  | called result _ => (result.map .handled).mapError CommandError.message

end Deed

/-- An action does this if the handlers are in the given state, and leaves them in another. -/
inductive Does (registry : Registry η) (context : Context) (handlers : η) (action : Action) :
    Deed → η → Prop where
  | waited {length : Duration} (wait : action.command = waitName)
      (asked : waitLength (action.ready context) = .ok length) :
      Does registry context handlers action (.waited length) handlers
  | refused {message : String} (wait : action.command = waitName)
      (asked : waitLength (action.ready context) = .error message) :
      Does registry context handlers action (.refused message) handlers
  | unknown (wait : action.command ≠ waitName)
      (absent : registry.handlers.get? action.command = none) :
      Does registry context handlers action .unknown handlers
  | called {handler : Handler η} {result : Except CommandError Json} {left : η}
      {pauses : List Duration} (wait : action.command ≠ waitName)
      (present : registry.handlers.get? action.command = some handler)
      (ran : (handler (action.call context).arguments).runAlone handlers =
        ⟨.ok result, left, pauses⟩) :
      Does registry context handlers action (.called result pauses) left

variable {registry : Registry η} {context : Context} {handlers left : η} {action : Action}
  {deed : Deed}

theorem exists_does (safe : registry.CrashFree) (context : Context) (handlers : η)
    (action : Action) : ∃ deed left, Does registry context handlers action deed left := by
  by_cases hw : action.command = waitName
  · cases ha : waitLength (action.ready context) with
    | ok length => exact ⟨_, _, .waited hw ha⟩
    | error message => exact ⟨_, _, .refused hw ha⟩
  · cases hg : registry.handlers.get? action.command with
    | none => exact ⟨_, _, .unknown hw hg⟩
    | some handler =>
      obtain ⟨result, hr⟩ := safe _ handler hg (action.call context).arguments handlers
      generalize he : (handler (action.call context).arguments).runAlone handlers = ending at hr
      obtain ⟨outcome, left, pauses⟩ := ending
      obtain rfl : outcome = .ok result := hr
      exact ⟨_, _, .called hw hg he⟩

theorem contains_of_get? {name : String} {handler : Handler η}
    (h : registry.handlers.get? name = some handler) : registry.contains name = true := by
  simp [Registry.contains, Dict.contains, h]

theorem not_contains_of_get? {name : String} (h : registry.handlers.get? name = none) :
    registry.contains name = false := by
  simp [Registry.contains, Dict.contains, h]

/-- An action is unknown if that is what came of it. -/
theorem Does.unknown_iff (h : Does registry context handlers action deed left) :
    Unknown registry action ↔ deed = .unknown := by
  cases h with
  | waited wait => simp [Unknown, wait]
  | refused wait => simp [Unknown, wait]
  | unknown wait absent => simp [Unknown, wait, not_contains_of_get? absent]
  | called wait present => simp [Unknown, contains_of_get? present]

theorem Does.not_unknown {message : String} (h : Does registry context handlers action deed left)
    (ill : deed.failure? = some message) : ¬ Unknown registry action := by
  rw [h.unknown_iff]
  rintro rfl
  simp [Deed.failure?] at ill

/-- A recorded handler does what the handler does and leaves its call in the record. -/
theorem Does.recorded (h : Does registry context handlers action deed left) (calls : List Call) :
    Does registry.recorded context (handlers, calls) action deed
      (left, calls ++ if Handled registry action then [action.call context] else []) := by
  have hget := registry.get?_recorded action.command
  cases h with
  | waited wait asked => simpa [Handled, wait] using Does.waited wait asked
  | refused wait asked => simpa [Handled, wait] using Does.refused wait asked
  | unknown wait absent =>
    rw [absent] at hget
    simpa [Handled, not_contains_of_get? absent] using Does.unknown wait hget
  | @called handler result left pauses wait present ran =>
    rw [present] at hget
    refine .called wait hget ?_
    rw [Registry.runAlone_note, ran, if_pos ⟨wait, contains_of_get? present⟩]
    rfl

theorem unknown_recorded (registry : Registry η) (action : Action) :
    Unknown registry.recorded action ↔ Unknown registry action := by
  simp [Unknown, Registry.contains, Dict.contains, registry.get?_recorded action.command]

end Action

namespace Rule

open Automation.Action

variable {registry : Registry η} {context : Context} {handlers left : η} {actions : List Action}
  {deeds : List Deed}

/-- What the actions have done one after the other, up to the first that failed. -/
inductive Did (registry : Registry η) (context : Context) :
    η → List Action → List Deed → η → Prop where
  | nil {handlers : η} : Did registry context handlers [] [] handlers
  | cons {handlers between left : η} {action : Action} {deed : Deed} {actions : List Action}
      {deeds : List Deed} (does : Does registry context handlers action deed between)
      (well : deed.failure? = none) (later : Did registry context between actions deeds left) :
      Did registry context handlers (action :: actions) (deed :: deeds) left
  | failed {handlers left : η} {action : Action} {deed : Deed} {message : String}
      (actions : List Action) (does : Does registry context handlers action deed left)
      (ill : deed.failure? = some message) :
      Did registry context handlers (action :: actions) [deed] left

theorem exists_did (safe : registry.CrashFree) (context : Context) (handlers : η)
    (actions : List Action) : ∃ deeds left, Did registry context handlers actions deeds left := by
  induction actions generalizing handlers with
  | nil => exact ⟨_, _, .nil⟩
  | cons action actions ih =>
    obtain ⟨deed, between, does⟩ := exists_does safe context handlers action
    cases hf : deed.failure? with
    | none =>
      obtain ⟨deeds, left, later⟩ := ih between
      exact ⟨_, _, .cons does hf later⟩
    | some message => exact ⟨_, _, .failed actions does hf⟩

/-- The names of the unknown commands among actions. -/
def unknownNames (registry : Registry η) (actions : List Action) : List String :=
  (actions.filter (Unknown registry)).map Action.command

/-- The calls of handlers that actions stand for. -/
def calls (registry : Registry η) (context : Context) (actions : List Action) : List Call :=
  (actions.filter (Handled registry)).map (Action.call context)

theorem unknownNames_nil (registry : Registry η) : unknownNames registry [] = [] := rfl

theorem unknownNames_cons (registry : Registry η) (action : Action) (actions : List Action) :
    unknownNames registry (action :: actions) =
      (if Unknown registry action then [action.command] else []) ++
        unknownNames registry actions := by
  by_cases h : Unknown registry action <;> simp [unknownNames, h]

theorem unknownNames_recorded (registry : Registry η) (actions : List Action) :
    unknownNames registry.recorded actions = unknownNames registry actions := by
  simp [unknownNames, unknown_recorded]

theorem calls_nil (registry : Registry η) (context : Context) :
    calls registry context [] = [] := rfl

theorem calls_cons (registry : Registry η) (context : Context) (action : Action)
    (actions : List Action) :
    calls registry context (action :: actions) =
      (if Handled registry action then [action.call context] else []) ++
        calls registry context actions := by
  by_cases h : Handled registry action <;> simp [calls, h]

/-- Recorded handlers do the same deeds, and the calls of the actions that were carried out are in
the record. -/
theorem Did.recorded (h : Did registry context handlers actions deeds left) (noted : List Call) :
    Did registry.recorded context (handlers, noted) actions deeds
      (left, noted ++ calls registry context (actions.take deeds.length)) := by
  induction h generalizing noted with
  | nil => simpa [calls] using Did.nil
  | @cons handlers between left action deed actions deeds does well later ih =>
    have hlater := ih (noted ++ if Handled registry action then [action.call context] else [])
    simpa [calls_cons] using Did.cons (does.recorded noted) well hlater
  | @failed handlers left action deed message actions does ill =>
    have hcalls : calls registry context ((action :: actions).take [deed].length) =
        if Handled registry action then [action.call context] else [] := by
      simp [calls_cons, calls_nil]
    rw [hcalls]
    exact .failed actions (does.recorded noted) ill

/-- How a run ends: at its end, or with the first action that failed. The actions are counted from
`start`. -/
inductive Closes (start : Nat) (actions : List Action) :
    List Deed → Nat → Option Failure → Prop where
  | through {deeds : List Deed} (all : deeds.length = actions.length)
      (well : ∀ deed ∈ deeds, deed.failure? = none) :
      Closes start actions deeds (start + actions.length) none
  | failed {before : List Deed} {last : Deed} {action : Action} {message : String}
      (well : ∀ deed ∈ before, deed.failure? = none) (ill : last.failure? = some message)
      (place : actions[before.length]? = some action) :
      Closes start actions (before ++ [last]) (start + before.length)
        (some ⟨start + before.length, action.command, message⟩)

theorem Closes.cons {start completed : Nat} {failure : Option Failure} {deed : Deed}
    (h : Closes (start + 1) actions deeds completed failure) (action : Action)
    (well : deed.failure? = none) :
    Closes start (action :: actions) (deed :: deeds) completed failure := by
  have hcount (n : Nat) : start + 1 + n = start + (n + 1) := by omega
  cases h with
  | through all later =>
    rw [hcount]
    exact .through (by simp [all]) (by simpa [well] using later)
  | @failed before last other message later ill place =>
    rw [hcount]
    exact @Closes.failed start (action :: actions) (deed :: before) last other message
      (by simpa [well] using later) ill (by simpa using place)

/-- The deeds tell how a run ends. -/
theorem Closes.unique {start completed other : Nat} {failure later : Option Failure}
    (h : Closes start actions deeds completed failure)
    (h' : Closes start actions deeds other later) :
    completed = other ∧ failure = later := by
  have hill {before : List Deed} {last : Deed} {message : String}
      (ill : last.failure? = some message)
      (well : ∀ deed ∈ before ++ [last], deed.failure? = none) : False := by
    have := well last (by simp)
    simp [this] at ill
  cases h with
  | through all well =>
    generalize hd : deeds = told at h'
    cases h' with
    | through => exact ⟨rfl, rfl⟩
    | failed _ ill => exact (hill ill (hd ▸ well)).elim
  | @failed before last action message well ill place =>
    generalize hd : before ++ [last] = told at h'
    cases h' with
    | through _ well' => exact (hill ill (hd ▸ well')).elim
    | @failed before' last' action' message' well' ill' place' =>
      obtain ⟨rfl, rfl⟩ : before = before' ∧ last = last' := by simpa using hd
      obtain rfl : message = message' := by simpa [ill] using ill'
      obtain rfl : action = action' := by simpa [place] using place'
      exact ⟨rfl, rfl⟩

/-- The action that failed is the last one that did anything. -/
theorem Closes.length_of_failed {start completed : Nat} {failure : Failure}
    (h : Closes start actions deeds completed (some failure)) :
    start + deeds.length = failure.index + 1 := by
  cases h with
  | failed => simp [Nat.add_assoc]

/-- The world after a run. -/
def leave (world : World η) (handlers : η) (unknown : List String) : World η :=
  { world with
    handlers
    unknownDispatches := world.unknownDispatches + UInt64.ofNat unknown.length }

theorem leave_append (world : World η) (between left : η) (first later : List String) :
    leave (leave world between first) left later = leave world left (first ++ later) := by
  simp [leave, UInt64.add_assoc, UInt64.ofNat_add]

/-- Carrying out an action does the deed. -/
theorem runAlone_perform {world : World η} {action : Action} {deed : Deed}
    (h : Does registry context world.handlers action deed left) :
    (perform registry action.command (action.ready context)).runAlone world =
      ⟨.ok deed.answer, leave world left (unknownNames registry [action]), deed.pauses⟩ := by
  have hunknown := h.unknown_iff
  rw [unknownNames_cons, unknownNames_nil]
  cases h with
  | waited wait asked =>
    rw [perform, if_pos wait, asked]
    simp [hunknown, leave, runAlone_bind, Deed.answer, Deed.pauses]
  | refused wait asked =>
    rw [perform, if_pos wait, asked]
    simp [hunknown, leave, Deed.answer, Deed.pauses]
  | unknown wait absent =>
    rw [perform, if_neg wait, runAlone_bind, map_toJson_ready,
      Registry.runAlone_dispatch_of_none absent]
    simp [hunknown, leave, World.countUnknown, Except.mapError, Deed.answer, Deed.pauses]
  | @called handler result left pauses wait present ran =>
    rw [perform, if_neg wait, runAlone_bind, map_toJson_ready,
      Registry.runAlone_dispatch_of_some present, ran]
    simp [hunknown, leave, World.withHandlers, Except.map, Deed.answer, Deed.pauses]

/-- A run goes on after a deed that did not fail. -/
theorem runAlone_runFrom_of_well {world : World η} {action : Action} {deed : Deed}
    (h : Does registry context world.handlers action deed left) (well : deed.failure? = none)
    (outcome : Outcome) (rest : List Action) :
    let unknown := unknownNames registry [action]
    (runFrom registry context outcome (action :: rest)).runAlone world =
      Ending.andThen ⟨.ok (⟨outcome.completed + 1, outcome.unknown ++ unknown, outcome.failure⟩ :
          Outcome), leave world left unknown, deed.pauses⟩
        fun outcome world => (runFrom registry context outcome rest).runAlone world := by
  intro unknown
  have hunknown : unknown = if Unknown registry action then [action.command] else [] := by
    simp [unknown, unknownNames_cons, unknownNames_nil]
  have hperform := runAlone_perform h
  rw [runFrom, runAlone_bind, map_render, hperform]
  have hdeed := h.unknown_iff
  cases deed with
  | waited length => simp [hunknown, hdeed, Deed.answer, unknown]
  | refused message => simp [Deed.failure?] at well
  | unknown => simp [hunknown, hdeed, Deed.answer, unknown]
  | called result pauses =>
    cases result with
    | ok output => simp [hunknown, hdeed, Deed.answer, unknown, Except.map, Except.mapError]
    | error e => simp [Deed.failure?] at well

/-- A deed that failed ends the run. -/
theorem runAlone_runFrom_of_ill {world : World η} {action : Action} {deed : Deed} {message : String}
    (h : Does registry context world.handlers action deed left)
    (ill : deed.failure? = some message) (outcome : Outcome) (rest : List Action) :
    (runFrom registry context outcome (action :: rest)).runAlone world =
      ⟨.ok { outcome with failure := some ⟨outcome.completed, action.command, message⟩ },
        leave world left [], deed.pauses⟩ := by
  have hperform := runAlone_perform h
  have hanswer : deed.answer = .error message := by
    cases deed with
    | waited length => simp [Deed.failure?] at ill
    | refused text => simpa [Deed.failure?, Deed.answer] using ill
    | unknown => simp [Deed.failure?] at ill
    | called result pauses =>
      cases result with
      | ok output => simp [Deed.failure?] at ill
      | error e => simpa [Deed.failure?, Deed.answer, Except.map, Except.mapError] using ill
  rw [runFrom, runAlone_bind, map_render, hperform, hanswer]
  simp [unknownNames_cons, unknownNames_nil, h.not_unknown ill]

/-- What a run comes to is what its actions have done. -/
theorem Did.runAlone_runFrom {world : World η}
    (h : Did registry context world.handlers actions deeds left) (outcome : Outcome)
    (hf : outcome.failure = none) :
    let unknown := unknownNames registry (actions.take deeds.length)
    ∃ completed failure, Closes outcome.completed actions deeds completed failure ∧
      (runFrom registry context outcome actions).runAlone world =
        ⟨.ok ⟨completed, outcome.unknown ++ unknown, failure⟩, leave world left unknown,
          deeds.flatMap Deed.pauses⟩ := by
  generalize hs : world.handlers = handlers at h
  induction h generalizing world outcome with
  | nil =>
    subst hs
    refine ⟨_, none, .through rfl (by simp), ?_⟩
    obtain ⟨completed, unknown, failure⟩ := outcome
    obtain rfl : failure = none := hf
    simp [runFrom, leave, unknownNames_nil]
  | @cons handlers between left action deed actions deeds does well later ih =>
    subst hs
    obtain ⟨completed, failure, hcloses, hrun⟩ :=
      @ih (leave world between (unknownNames registry [action]))
        ⟨outcome.completed + 1, outcome.unknown ++ unknownNames registry [action], outcome.failure⟩
        hf rfl
    refine ⟨completed, failure, hcloses.cons action well, ?_⟩
    have hsplit : unknownNames registry ((action :: actions).take (deed :: deeds).length) =
        unknownNames registry [action] ++ unknownNames registry (actions.take deeds.length) := by
      simp [unknownNames_cons, unknownNames_nil]
    rw [runAlone_runFrom_of_well does well, Ending.andThen_ok, hrun, hsplit, leave_append]
    simp
  | @failed handlers left action deed message actions does ill =>
    subst hs
    have hnone : unknownNames registry ((action :: actions).take [deed].length) = [] := by
      simp [unknownNames_cons, unknownNames_nil, does.not_unknown ill]
    have hcloses : Closes outcome.completed (action :: actions) ([] ++ [deed])
        (outcome.completed + ([] : List Deed).length) _ := .failed (by simp) ill rfl
    refine ⟨_, _, hcloses, ?_⟩
    rw [runAlone_runFrom_of_ill does ill, hnone]
    simp

/-- The time of deeds, however it is counted, is that of the waits that were completed and that of
the handlers. -/
theorem sum_pauses (count : Duration → Nat) (deeds : List Deed) :
    ((deeds.flatMap Deed.pauses).map count).sum =
      ((deeds.filterMap Deed.wait?).map count).sum + ((deeds.flatMap Deed.own).map count).sum := by
  induction deeds with
  | nil => rfl
  | cons deed deeds ih =>
    rw [List.flatMap_cons, List.map_append, List.sum_append, ih]
    cases deed with
    | waited length => simp [Deed.pauses, Deed.wait?, Deed.own, Nat.add_assoc]
    | refused message => simp [Deed.pauses, Deed.wait?, Deed.own, List.filterMap_cons]
    | unknown => simp [Deed.pauses, Deed.wait?, Deed.own, List.filterMap_cons]
    | called result pauses =>
      simp only [Deed.pauses, Deed.wait?, Deed.own, List.filterMap_cons, List.flatMap_cons,
        List.map_append, List.sum_append]
      omega

/-- What a run reports, does and takes, as an account of the deeds of its actions. -/
structure Account (registry : Registry η) (context : Context) (rule : Rule) (world : World η)
    (outcome : Outcome) (deeds : List Deed) (left : η) : Prop where
  did : Did registry context world.handlers rule.actions deeds left
  ends : (rule.run registry context).runAlone world =
    ⟨.ok outcome, leave world left outcome.unknown, deeds.flatMap Deed.pauses⟩
  /-- The handlers that are called, and with what, as the record of all calls has it. -/
  called : (rule.run registry.recorded context).runAlone world.withRecord =
    ⟨.ok outcome, { leave world left outcome.unknown with
      handlers := (left, calls registry context (rule.actions.take deeds.length)) },
      deeds.flatMap Deed.pauses⟩
  closes : Closes 0 rule.actions deeds outcome.completed outcome.failure
  unknown : outcome.unknown = unknownNames registry (rule.actions.take deeds.length)
  time (count : Duration → Nat) : ((deeds.flatMap Deed.pauses).map count).sum =
    ((deeds.filterMap Deed.wait?).map count).sum + ((deeds.flatMap Deed.own).map count).sum

/-- A run of a rule carries out the actions in their order, up to and including the first that
fails, and reports what they have done. -/
theorem run_accounted {registry : Registry η} (safe : registry.CrashFree) (context : Context)
    (rule : Rule) (world : World η) :
    ∃ outcome deeds left, Account registry context rule world outcome deeds left := by
  obtain ⟨deeds, left, did⟩ := exists_did safe context world.handlers rule.actions
  obtain ⟨completed, failure, closes, ends⟩ := did.runAlone_runFrom Outcome.none rfl
  refine ⟨_, deeds, left, did, ends, ?_, closes, rfl, fun count => sum_pauses count deeds⟩
  have noted : Did registry.recorded context world.withRecord.handlers rule.actions deeds _ :=
    did.recorded []
  obtain ⟨completed', failure', closes', ends'⟩ := noted.runAlone_runFrom Outcome.none rfl
  obtain ⟨rfl, rfl⟩ := closes.unique closes'
  rw [run, ends', unknownNames_recorded]
  rfl

namespace Parrot

/-- The parrot counts what it says. -/
def speak : Handler Nat := fun _ => do
  Routine.modify (· + 1)
  return .ok .null

def bite : Handler Nat := fun _ => do
  Routine.sleep ⟨5⟩
  return .error (.failed "ouch")

/-- The handler by the name of the built-in action is never called. -/
def cage : Registry Nat :=
  Registry.ofList [("speak", speak), ("bite", bite), ("wait", bite)]

def rule : Rule :=
  ⟨.event "visit" none, [⟨"speak", [.string "hello \x7b\x7b name \x7d\x7d!"]⟩, ⟨"dance", []⟩,
    ⟨"wait", [.string "1"]⟩,
    ⟨"bite", [.string "\x7b\x7bfinger\x7d\x7d", .number (.finite false Double.one)]⟩,
    ⟨"speak", []⟩]⟩

def visitor : Context := Dict.ofList [("name", "Polly"), ("finger", "thumb")]

def world : World Nat :=
  ⟨0, 0, ⟨fun n => ⟨BitVec.ofNat 128 n⟩, 0⟩, ⟨fun n => ⟨n, 0⟩, 0⟩, ⟨fun n => n, 0⟩,
    ⟨fun n => n, 0⟩⟩

theorem crashFree_cage : cage.CrashFree := by
  intro name handler hget args
  have hmem : (name, handler) ∈ [("speak", speak), ("bite", bite), ("wait", bite)] :=
    Dict.get?_eq_some_iff.mp hget
  simp only [List.mem_cons, Prod.mk.injEq, List.not_mem_nil, or_false] at hmem
  obtain ⟨-, rfl⟩ | ⟨-, rfl⟩ | ⟨-, rfl⟩ := hmem
  · exact fun _ => ⟨_, rfl⟩
  · exact fun _ => ⟨_, rfl⟩
  · exact fun _ => ⟨_, rfl⟩

/-- The parrot says the name of its visitor and bites the thumb once; it does not dance, and it does
not speak again. -/
theorem run_accounted_parrot : cage.CrashFree ∧ ∃ deeds left,
    Account cage visitor rule world ⟨3, ["dance"], some ⟨3, "bite", "ouch"⟩⟩ deeds left ∧
      calls cage visitor (rule.actions.take deeds.length) =
        [⟨"speak", [.string "hello Polly!"]⟩, ⟨"bite", [.string "thumb", .int 1]⟩] := by
  refine ⟨crashFree_cage, ?_⟩
  obtain ⟨outcome, deeds, left, account⟩ := run_accounted crashFree_cage visitor rule world
  have hrun : ((rule.run cage visitor).runAlone world).outcome =
      .ok ⟨3, ["dance"], some ⟨3, "bite", "ouch"⟩⟩ := by decide +kernel
  rw [account.ends] at hrun
  obtain rfl := Except.ok.inj hrun
  have hlength : deeds.length = 4 := by simpa using account.closes.length_of_failed
  have hfilter : (rule.actions.take 4).filter (Handled cage) =
      [⟨"speak", [.string "hello \x7b\x7b name \x7d\x7d!"]⟩,
        ⟨"bite", [.string "\x7b\x7bfinger\x7d\x7d", .number (.finite false Double.one)]⟩] := by
    decide +kernel
  have hgreeting : Placeholder.render visitor "hello \x7b\x7b name \x7d\x7d!" = "hello Polly!" := by
    decide +kernel
  have hthumb : Placeholder.render visitor "\x7b\x7bfinger\x7d\x7d" = "thumb" := by decide +kernel
  have hwhole : Double.whole? (.finite false Double.one) = some 1 := by decide +kernel
  refine ⟨deeds, left, account, ?_⟩
  rw [hlength, calls, hfilter]
  simp [call, hgreeting, hthumb, Argument.toJson, hwhole]

end Parrot

end Rule
end Automation
