import Automation.Proofs.Engine.Settlement

/-!
# The books of an engine

Any number of calls are under way side by side, each a step at a time; events and schedules set off
more of them. All that they enter goes into one journal, in the order in which it happens. Of a
script or workflow that is not deleted, the journal says how often it has run and what its variables
are; and what a call has entered can be said without the other calls, once it has ended.
-/
namespace Automation.Engine

open Routine

variable {η : Type}

namespace Task

/-- The request that a task amounts to. -/
def request (context : Context) : Task → Request
  | rule script index r => .runRule script.id index r context
  | workflow w => .runWorkflow w.id context

/-- Runs a task and tells whether there was anything to run. -/
def answer (engine : Engine η) (context : Context) (task : Task) : Routine (State η) Bool :=
  answers (task.run engine context)

theorem answer_eq (engine : Engine η) (context : Context) (task : Task) :
    task.answer engine context = (task.request context).run engine := by
  cases task with
  | rule script index r => rfl
  | workflow w => rfl

end Task

section Lists

variable {α β : Type} {l : List α} {i : Nat} {old new : α}

theorem map_set_same (f : α → β) (h : l[i]? = some old) (hf : f new = f old) :
    (l.set i new).map f = l.map f := by
  obtain ⟨hlt, rfl⟩ := List.getElem?_eq_some_iff.mp h
  have hmap : i < (l.map f).length := by rwa [List.length_map]
  have hself := List.set_getElem_self hmap
  rw [List.getElem_map, ← hf, ← List.map_set] at hself
  exact hself

/-- If each element brings forth one or none that counts, as many count as bring one forth. -/
theorem countP_flatMap_of {f : α → List β} {p : β → Bool} {q : α → Bool}
    (h : ∀ a ∈ l, (f a).countP p = if q a then 1 else 0) : (l.flatMap f).countP p = l.countP q := by
  induction l with
  | nil => rfl
  | cons a rest ih =>
    obtain ⟨hfirst, hrest⟩ := List.forall_mem_cons.mp h
    rw [List.flatMap_cons, List.countP_append, List.countP_cons, hfirst, ih hrest, Nat.add_comm]

theorem flatMap_set_perm {f : α → List β} {more : List β} (h : l[i]? = some old)
    (hnew : f new = f old ++ more) :
    (l.flatMap f ++ more).Perm ((l.set i new).flatMap f) := by
  have hset := (Weave.perm_set h new).flatMap_right f
  simp only [List.flatMap_append, List.flatMap_singleton, hnew] at hset
  have hswap : (l.flatMap f ++ (f old ++ more)).Perm (l.flatMap f ++ more ++ f old) := by
    rw [List.append_assoc]
    exact List.perm_append_comm.append_left _
  exact ((List.perm_append_right_iff (f old)).mp (hset.trans hswap)).symm

end Lists

/-- A call: what was asked for, the steps that it has taken, and what is left of it. -/
structure BookedCall (η : Type) where
  request : Request
  steps : List (State η × State η)
  rest : Routine (State η) Bool

/-- An event or a schedule that has not set off its tasks yet. -/
structure Occasion (η : Type) where
  context : Context
  rest : Routine (State η) (List (Routine (State η) Result))

namespace BookedCall

/-- What a call has entered so far. -/
def entries (call : BookedCall η) : List Entry := call.request.entries call.steps

/-- Whether an execution has finished. -/
def finished (call : BookedCall η) : Bool :=
  match call.rest with
  | .done returned => returned
  | _ => false

/-- Whether the script of a call compiled when it was looked up. -/
def compiled (call : BookedCall η) (id : Uuid) : Bool :=
  match call.steps with
  | [] => false
  | (s, _) :: _ => (s.scripts.rows.get? id).any fun script => script.program.toBool

/-- Whether a call is to be counted: an execution that has finished, a run of a script that got past
compilation, or a rule that was set off. -/
def counts (subject : Subject) (call : BookedCall η) : Bool :=
  match call.request with
  | .executeWorkflow id _ | .runWorkflow id _ => subject = .workflow id && call.finished
  | .runScript id _ => subject = .script id && call.compiled id
  | .runRule id _ _ _ => subject = .script id
  | _ => false

end BookedCall

/-- An engine at work, with all that has been entered. -/
structure Books (η : Type) where
  state : State η
  calls : List (BookedCall η)
  occasions : List (Occasion η)
  journal : List Entry

namespace Books

/-- Books in which nothing has been entered yet. -/
def start (s : State η) : Books η := ⟨s, [], [], []⟩

/-- A request comes in, or something happens that sets off tasks; a call does a step, which it
enters; or something else is done that leaves what is counted as it is. -/
inductive Step (engine : Engine η) : Books η → Books η → Prop where
  | call {t : Books η} (r : Request) (h : r.makesRow = false) :
      Step engine t { t with calls := t.calls ++ [⟨r, [], r.run engine⟩] }
  | event {t : Books η} (name : String) (context : Context) :
      Step engine t { t with occasions := t.occasions ++ [⟨context, engine.event name context⟩] }
  | schedule {t : Books η} (expression : String) (context : Context) :
      Step engine t
        { t with occasions := t.occasions ++ [⟨context, engine.fireSchedule expression context⟩] }
  /-- The scripts or the workflows are looked up. -/
  | look {t : Books η} {i : Nat} {occasion : Occasion η} {s : State η}
      {rest : Routine (State η) (List (Routine (State η) Result))}
      (hi : t.occasions[i]? = some occasion) (hs : occasion.rest.Step t.state rest s) :
      Step engine t { t with state := s, occasions := t.occasions.set i ⟨occasion.context, rest⟩ }
  /-- The tasks that are set off start side by side. -/
  | launch {t : Books η} {i : Nat} {context : Context} {tasks : List Task}
      (hi : t.occasions[i]? = some ⟨context, .done (tasks.map (Task.run engine context))⟩) :
      Step engine t
        { t with
          calls := t.calls ++
            tasks.map fun task => ⟨task.request context, [], task.answer engine context⟩
          occasions := t.occasions.eraseIdx i }
  | turn {t : Books η} {i : Nat} {call : BookedCall η} {rest : Routine (State η) Bool}
      {s : State η} (hi : t.calls[i]? = some call) (hs : call.rest.Step t.state rest s) :
      Step engine t
        ⟨s, t.calls.set i ⟨call.request, call.steps ++ [(t.state, s)], rest⟩, t.occasions,
          t.journal ++ call.request.enters t.state s⟩
  | meanwhile {t : Books η} {s : State η}
      (h : ∀ subject tally, t.state.tally? subject = some tally → s.tally? subject = some tally) :
      Step engine t { t with state := s }

def Reaches (engine : Engine η) (s : State η) : Books η → Prop :=
  Relation.ReflTransGen (Step engine) (start s)

/-- An occasion only looks. -/
def Looks (occasion : Occasion η) : Prop :=
  Commits (fun update => ∀ s, update s = s) occasion.rest

/-- The calls have come this far, and what they have entered is in the journal. -/
structure Orderly (engine : Engine η) (t : Books η) : Prop where
  calls : ∀ call ∈ t.calls, call.request.makesRow = false ∧
    Path (call.request.run engine) call.steps call.rest
  occasions : ∀ occasion ∈ t.occasions, Looks occasion
  journal : t.journal.Perm (t.calls.flatMap BookedCall.entries)

variable {engine : Engine η} {s : State η} {t next : Books η} {subject : Subject} {before : Tally}

theorem looks_occasion (engine : Engine η) (context : Context) (fits : Trigger → Bool) :
    Looks ⟨context, engine.occasion context fits⟩ :=
  .commit (fun _ => rfl) fun _ => .commit (fun _ => rfl) fun _ => .done _

theorem Looks.step {occasion : Occasion η} (h : Looks occasion) {s' : State η}
    {rest : Routine (State η) (List (Routine (State η) Result))}
    (hs : occasion.rest.Step s rest s') : Looks ⟨occasion.context, rest⟩ ∧ s' = s := by
  obtain ⟨hrest, hsame⟩ := Commits.step h hs
  refine ⟨hrest, ?_⟩
  rcases hsame with rfl | ⟨update, hu, rfl⟩
  · rfl
  · exact hu s

theorem Orderly.append (h : t.Orderly engine) {new : List (BookedCall η)}
    {occasions : List (Occasion η)} (ho : ∀ occasion ∈ occasions, occasion ∈ t.occasions)
    (hnew : ∀ call ∈ new, call.request.makesRow = false ∧ call.steps = [] ∧
      call.rest = call.request.run engine) :
    Orderly engine { t with calls := t.calls ++ new, occasions } := by
  refine ⟨List.forall_mem_append.mpr ⟨h.calls, fun call hcall => ?_⟩,
    fun occasion hmem => h.occasions occasion (ho occasion hmem), ?_⟩
  · obtain ⟨hrow, hsteps, hrest⟩ := hnew call hcall
    rw [hsteps, hrest]
    exact ⟨hrow, .refl⟩
  · have hnone : new.flatMap BookedCall.entries = [] := by
      refine List.flatMap_eq_nil_iff.mpr fun call hcall => ?_
      rw [BookedCall.entries, (hnew call hcall).2.1]
      rfl
    show t.journal.Perm _
    rw [List.flatMap_append, hnone, List.append_nil]
    exact h.journal

theorem Step.orderly (hs : Step engine t next) (h : t.Orderly engine) : next.Orderly engine := by
  have hlooks : ∀ (context : Context) (fits : Trigger → Bool), Orderly engine
      { t with occasions := t.occasions ++ [⟨context, engine.occasion context fits⟩] } :=
    fun context fits => ⟨h.calls, List.forall_mem_append.mpr
      ⟨h.occasions, List.forall_mem_singleton.mpr (looks_occasion engine context fits)⟩, h.journal⟩
  cases hs with
  | call r hr =>
    exact h.append (fun _ hmem => hmem) (List.forall_mem_singleton.mpr ⟨hr, rfl, rfl⟩)
  | event name context => exact hlooks context _
  | schedule expression context => exact hlooks context _
  | look hi hs =>
    refine ⟨h.calls, fun occasion hmem => ?_, h.journal⟩
    rcases List.mem_or_eq_of_mem_set hmem with hmem | rfl
    · exact h.occasions occasion hmem
    · exact ((h.occasions _ (List.mem_of_getElem? hi)).step hs).1
  | launch hi =>
    refine h.append (fun _ hmem => List.mem_of_mem_eraseIdx hmem) (List.forall_mem_map.mpr ?_)
    intro task _
    refine ⟨?_, rfl, task.answer_eq engine _⟩
    cases task with
    | rule script index r => rfl
    | workflow w => rfl
  | @turn i call rest s hi hs =>
    obtain ⟨hrow, hpath⟩ := h.calls call (List.mem_of_getElem? hi)
    refine ⟨fun other hother => ?_, h.occasions, ?_⟩
    · rcases List.mem_or_eq_of_mem_set hother with hother | rfl
      · exact h.calls other hother
      · exact ⟨hrow, hpath.tail hs⟩
    · refine (h.journal.append_right _).trans (flatMap_set_perm hi ?_)
      simp only [BookedCall.entries, Request.entries, List.flatMap_append, List.flatMap_singleton]
  | meanwhile hs => exact ⟨h.calls, h.occasions, h.journal⟩

theorem Reaches.orderly (h : Reaches engine s t) : t.Orderly engine := by
  induction h with
  | refl => exact ⟨List.forall_mem_nil _, List.forall_mem_nil _, .nil⟩
  | tail _ hs ih => exact hs.orderly ih

/-- What was asked for stays so. -/
theorem Step.requests_prefix (hs : Step engine t next) :
    t.calls.map BookedCall.request <+: next.calls.map BookedCall.request := by
  cases hs with
  | call r hr =>
    rw [List.map_append]
    exact List.prefix_append _ _
  | launch hi =>
    rw [List.map_append]
    exact List.prefix_append _ _
  | @turn i call rest s hi hs =>
    have hsame : (t.calls.set i ⟨call.request, call.steps ++ [(t.state, s)], rest⟩).map
        BookedCall.request = t.calls.map BookedCall.request := map_set_same _ hi rfl
    exact hsame ▸ List.prefix_rfl
  | event | schedule | look | meanwhile => exact List.prefix_rfl

/-- The journal tells the tally of something that was there all the time, and nothing has taken its
count back. -/
structure Tells (s : State η) (subject : Subject) (t : Books η) : Prop where
  told : Told subject t.journal s t.state
  seen : ∀ call ∈ t.calls, ∀ step ∈ call.steps,
    (step.1.tally? subject).isSome ∧ step.1.runs subject ≤ t.state.runs subject
  climbing : ∀ call ∈ t.calls, Climbing subject call.steps

theorem Step.tells (hs : Step engine t next) (ho : t.Orderly engine)
    (hkept : ∀ call ∈ t.calls, call.request.deletes ≠ some subject)
    (hsome : s.tally? subject = some before) (h : t.Tells s subject) : next.Tells s subject := by
  have hnew : ∀ {new : List (BookedCall η)} {occasions : List (Occasion η)},
      (∀ call ∈ new, call.steps = []) →
        Tells s subject { t with calls := t.calls ++ new, occasions } := by
    intro new occasions hnone
    refine ⟨h.told, List.forall_mem_append.mpr ⟨h.seen, fun call hcall => ?_⟩,
      List.forall_mem_append.mpr ⟨h.climbing, fun call hcall => ?_⟩⟩
    · rw [hnone call hcall]
      exact List.forall_mem_nil _
    · rw [hnone call hcall]
      exact .nil
  cases hs with
  | call r hr => exact hnew (List.forall_mem_singleton.mpr rfl)
  | event name context => exact ⟨h.told, h.seen, h.climbing⟩
  | schedule expression context => exact ⟨h.told, h.seen, h.climbing⟩
  | @look i occasion s' rest hi hs =>
    obtain rfl := ((ho.occasions _ (List.mem_of_getElem? hi)).step hs).2
    exact ⟨h.told, h.seen, h.climbing⟩
  | launch hi => exact hnew (List.forall_mem_map.mpr fun _ _ => rfl)
  | @turn i call rest s' hi hs =>
    have hmem := List.mem_of_getElem? hi
    obtain ⟨hrow, hpath⟩ := ho.calls call hmem
    have htold := (((told_request engine hrow (hkept call hmem)).path hpath).step hs).2
    have hnow : (t.state.tally? subject).isSome := by
      rw [(h.told before hsome).1]
      rfl
    have hle := htold.runs_le hnow
    have hseen : ∀ other ∈ t.calls, ∀ step ∈ other.steps,
        (step.1.tally? subject).isSome ∧ step.1.runs subject ≤ s'.runs subject :=
      fun other hother step hstep =>
        (h.seen other hother step hstep).imp_right fun hbefore => hbefore.trans hle
    refine ⟨h.told.append htold, fun other hother => ?_, fun other hother => ?_⟩
    · rcases List.mem_or_eq_of_mem_set hother with hother | rfl
      · exact hseen other hother
      · exact List.forall_mem_append.mpr
          ⟨hseen call hmem, List.forall_mem_singleton.mpr ⟨hnow, hle⟩⟩
    · rcases List.mem_or_eq_of_mem_set hother with hother | rfl
      · exact h.climbing other hother
      · refine List.pairwise_append.mpr ⟨h.climbing call hmem, List.pairwise_singleton _ _, ?_⟩
        intro step hstep later hlater
        obtain rfl := List.mem_singleton.mp hlater
        exact (h.seen call hmem step hstep).2
  | @meanwhile s' hs =>
    have hruns : s'.runs subject = t.state.runs subject := by
      obtain ⟨hnow, -⟩ := h.told before hsome
      rw [State.runs_of_tally hnow, State.runs_of_tally (hs _ _ hnow)]
    refine ⟨fun tally htally => ?_, fun call hcall step hstep => ?_, h.climbing⟩
    · exact (h.told tally htally).imp_left (hs _ _)
    · exact hruns ▸ h.seen call hcall step hstep

theorem Reaches.tells (h : Reaches engine s t) (hsome : s.tally? subject = some before)
    (hkept : ∀ call ∈ t.calls, call.request.deletes ≠ some subject) : t.Tells s subject := by
  induction h with
  | refl => exact ⟨told_nil rfl, List.forall_mem_nil _, List.forall_mem_nil _⟩
  | @tail t next hreach hs ih =>
    have hfirst : ∀ call ∈ t.calls, call.request.deletes ≠ some subject := by
      intro call hcall
      obtain ⟨later, hlater, he⟩ :=
        List.mem_map.mp (hs.requests_prefix.subset (List.mem_map_of_mem hcall))
      exact he ▸ hkept later hlater
    exact hs.tells (Reaches.orderly hreach) hfirst hsome (ih hfirst)

end Books

namespace BookedCall

variable {engine : Engine η} {subject : Subject}

theorem finished_of_outcome? {call : BookedCall η} {outcome : Except String Bool}
    (ho : call.rest.outcome? = some outcome) : call.finished = outcome.toOption.getD false := by
  rw [finished]
  cases hrest : call.rest with
  | done returned =>
    rw [hrest] at ho
    cases ho
    rfl
  | crash message =>
    rw [hrest] at ho
    cases ho
    rfl
  | commit update next =>
    rw [hrest] at ho
    cases ho
  | pause length next =>
    rw [hrest] at ho
    cases ho

/-- What is entered counts for what the request is about. -/
theorem subject?_of_counts {r : Request} {s s' : State η} {entry : Entry}
    (h : entry ∈ r.enters s s') (hc : entry.counts subject) : r.subject? = some subject := by
  cases r with
  | setVariable id name value =>
    obtain rfl := List.mem_singleton.mp h
    cases hc
  | updateWorkflow id patch =>
    obtain ⟨vars, -, rfl⟩ := Option.map_eq_some_iff.mp (Option.mem_toList.mp h)
    cases hc
  | executeWorkflow id context | runWorkflow id context =>
    obtain ⟨after, rfl⟩ := mem_counted h
    exact congrArg some (of_decide_eq_true hc).symm
  | runScript id context =>
    obtain ⟨after, rfl⟩ := mem_counted h
    exact congrArg some (of_decide_eq_true hc).symm
  | runRule id index rule context =>
    obtain ⟨after, rfl⟩ := mem_counted h
    exact congrArg some (of_decide_eq_true hc).symm
  | _ => cases h

end BookedCall

namespace Books

section Balance

variable {engine : Engine η} {s : State η} {t : Books η} {subject : Subject} {before : Tally}

/-- The books after a request has come in. -/
def afterCall (engine : Engine η) (t : Books η) (r : Request) : Books η :=
  { t with calls := t.calls ++ [⟨r, [], r.run engine⟩] }

/-- The books after the next commit of a call, if there is one. -/
def afterTurn (t : Books η) (i : Nat) : Books η :=
  match t.calls[i]? with
  | some ⟨request, steps, .commit update next⟩ =>
    ⟨update t.state, t.calls.set i ⟨request, steps ++ [(t.state, update t.state)], next t.state⟩,
      t.occasions, t.journal ++ request.enters t.state (update t.state)⟩
  | _ => t

/-- The books after so many commits of a call. -/
def afterTurns (t : Books η) (i : Nat) : (turns : Nat) → Books η
  | 0 => t
  | turns + 1 => (t.afterTurn i).afterTurns i turns

theorem Reaches.call (h : Reaches engine s t) {r : Request} (hr : r.makesRow = false) :
    Reaches engine s (t.afterCall engine r) :=
  h.tail (.call r hr)

theorem Reaches.turn (h : Reaches engine s t) (i : Nat) : Reaches engine s (t.afterTurn i) := by
  unfold afterTurn
  split
  · next hi => exact h.tail (.turn hi .commit)
  · exact h

theorem Reaches.turns (h : Reaches engine s t) (i turns : Nat) :
    Reaches engine s (t.afterTurns i turns) := by
  induction turns generalizing t with
  | zero => exact h
  | succ turns ih => exact ih (h.turn i)

end Balance

namespace Kettle

def boil : Behavior Unit := fun _ => do
  Behavior.setVariable "water" (.string "hot")
  return .ok .null

def engine : Engine Unit :=
  ⟨Registry.empty, ⟨Dict.ofList [("boil", boil)], .stored, .standard⟩, Catalog.builtin, 0,
    taskCrashed⟩

def tea : Workflow :=
  { Workflow.create ⟨1⟩ ⟨0, 0⟩ "tea" .manual with
    nodes := [⟨"kettle", "boil", "Kettle", Point.origin, .null, true⟩] }

def state : State Unit :=
  { State.start ⟨(), 0, ⟨fun n => ⟨BitVec.ofNat 128 n⟩, 0⟩, ⟨fun n => ⟨n, 0⟩, 0⟩, ⟨fun n => n, 0⟩,
    ⟨fun n => n, 0⟩⟩
    with workflows := ⟨"workflows", false, Dict.ofList [(⟨1⟩, tea)]⟩ }

end Kettle

end Books

end Automation.Engine
