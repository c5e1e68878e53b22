import Automation.Proofs.Dict
import Automation.Proofs.Engine.Commits
import Mathlib.Data.List.Nodup
import Mathlib.Data.List.Perm.Basic
import Mathlib.Logic.Relation

/-!
# Where executions are

Any number of calls run workflows side by side, each a step at a time, while others change the
state in other ways. An execution that was begun is active, or in the history, or was there and had
to make room. Active ones are running; the history holds the last ones that finished, in the order
in which they finished. A call crashes if its run cannot be counted, and then its execution stays
active for good.
-/
namespace Automation.Engine

open Routine Workflow.Runner

variable {η α : Type}

/-- What is left of a call that has begun an execution: steps that leave the executions alone, then
the count of the run, which crashes if the counter is full, and then a step in which the execution,
concluded, moves to the history and is returned. -/
inductive Concluding (limit : Nat) (id : Uuid) (started : Execution) :
    Routine (State η) (Except EngineError Execution) → Prop where
  | commit {update : State η → State η}
      {next : State η → Routine (State η) (Except EngineError Execution)} (hk : Keeps update)
      (hn : ∀ s, Concluding limit id started (next s)) :
      Concluding limit id started (.commit update next)
  | pause {length : Duration} {next : Routine (State η) (Except EngineError Execution)}
      (h : Concluding limit id started next) : Concluding limit id started (.pause length next)
  | count {now : Instant} {vars : Variables} {e : Execution} (h : Concludes started e) :
      Concluding limit id started (.commit (countWorkflow id now vars) fun s =>
        if s.Full (.workflow id) then .crash Counter.overflow else archiving limit e)
  | archive {e : Execution} (h : Concludes started e) :
      Concluding limit id started (archiving limit e)

theorem Concluding.bind {limit : Nat} {id : Uuid} {started : Execution} {p : Routine (State η) α}
    {f : α → Routine (State η) (Except EngineError Execution)} (h : Commits Keeps p)
    (hf : ∀ pauses outcome, Course p pauses outcome →
      ∃ a, outcome = .ok a ∧ Concluding limit id started (f a)) :
    Concluding limit id started (p >>= f) := by
  change Concluding limit id started (p.bind f)
  induction h with
  | done a =>
    obtain ⟨_, he, h⟩ := hf [] _ (.done a)
    obtain rfl := Except.ok.inj he
    exact h
  | crash message =>
    obtain ⟨_, he, -⟩ := hf [] _ (.crash message)
    cases he
  | commit hk hn ih => exact .commit hk fun s => ih s fun _ _ hc => hf _ _ (.commit s hc)
  | pause h ih => exact .pause (ih fun _ _ hc => hf _ _ (.pause hc))

/-- What is left of a call before it begins an execution. It may not come to that. -/
inductive Opening (limit : Nat) (id : Uuid) :
    Routine (State η) (Except EngineError Execution) → Prop where
  | read {next : State η → Routine (State η) (Except EngineError Execution)}
      (hn : ∀ s, Opening limit id (next s)) : Opening limit id (.commit (fun s => s) next)
  | refuse (e : EngineError) : Opening limit id (.done (.error e))
  | begin {workflowId : Uuid} {next : Execution → Routine (State η) (Except EngineError Execution)}
      (hn : ∀ started, Concluding limit id started (next started)) :
      Opening limit id (beginExecution workflowId >>= next)

theorem keeps_runToEnd (engine : Engine η) (w : Workflow) (started : Execution)
    (context : Context) : Commits Keeps (engine.runToEnd w started context) := by
  have hworld : CoversWorld (Keeps : (State η → State η) → Prop) := fun _ _ => rfl
  exact commits_runToEnd engine context hworld w started

theorem keeps_countWorkflow (id : Uuid) (now : Instant) (vars : Variables) :
    Keeps (countWorkflow id now vars : State η → State η) := by
  intro s
  rw [countWorkflow]
  split
  · rfl
  · rfl

theorem concluding_conclude (engine : Engine η) (id : Uuid) {started : Execution}
    {result : Execution × Variables} (h : Concludes started result.1) :
    Concluding engine.historyLimit id started (engine.conclude id result) := by
  rw [conclude_eq]
  exact .commit (fun _ => rfl) fun _ => .count h

/-- What a call does once it has begun an execution. -/
theorem concluding_runToEnd (engine : Engine η) (id : Uuid) (w : Workflow) (started : Execution)
    (context : Context) :
    Concluding engine.historyLimit id started
      (engine.runToEnd w started context >>= engine.conclude id) := by
  refine Concluding.bind (keeps_runToEnd engine w started context) fun pauses outcome hc => ?_
  obtain ⟨result, he, hr⟩ := concludes_runToEnd hc
  exact ⟨result, he, concluding_conclude engine id hr⟩

theorem opening_executeWorkflow (engine : Engine η) (id : Uuid) (context : Context) :
    Opening engine.historyLimit id (engine.executeWorkflow id context).run := by
  rw [run_executeWorkflow]
  refine .read fun s => ?_
  cases s.workflows.get id with
  | error e => exact .refuse _
  | ok w => exact .begin fun started => concluding_runToEnd engine id w started context

/-- A call that has not returned yet, for the workflow under an identifier. -/
structure OpenCall (η : Type) where
  id : Uuid
  rest : Routine (State η) (Except EngineError Execution)
  /-- The execution that the call has begun. -/
  own : Option Execution

/-- An execution whose call has crashed: the workflow that was asked for, and the state in which the
call took its last step. -/
structure Lost (η : Type) where
  id : Uuid
  execution : Execution
  state : State η

/-- Calls of an engine side by side, with a record of the executions that they began, of those that
they returned in the order in which they did, and of those that were lost to a crash. -/
structure Traffic (η : Type) where
  state : State η
  calls : List (OpenCall η)
  begun : List Execution
  finished : List Execution
  lost : List (Lost η)

/-- The execution that the next step of a routine begins, if it begins one. -/
inductive Begins : Routine (State η) α → State η → Option Execution → Prop where
  | begin {workflowId : Uuid} {next : Execution → Routine (State η) α} {s : State η}
      {e : Execution} (h : ((beginExecution workflowId).runAlone s).outcome = .ok e) :
      Begins (beginExecution workflowId >>= next) s (some e)
  | other {p : Routine (State η) α} {s : State η}
      (h : ∀ workflowId next, p ≠ beginExecution workflowId >>= next) : Begins p s none

/-- What is open of a call after a step: nothing if that was its last one. -/
def OpenCall.unlessOver (id : Uuid) (own : Option Execution) :
    Routine (State η) (Except EngineError Execution) → List (OpenCall η)
  | .done _ => []
  | .crash _ => []
  | rest => [⟨id, rest, own⟩]

/-- The execution that a call returns if there is nothing left of it. -/
def returned : Routine (State η) (Except EngineError Execution) → List Execution
  | .done (.ok e) => [e]
  | _ => []

/-- The execution that is lost if the call has crashed in a state. -/
def losses (id : Uuid) (own : Option Execution) (s : State η) :
    Routine (State η) (Except EngineError Execution) → List (Lost η)
  | .crash _ => own.toList.map fun e => ⟨id, e, s⟩
  | _ => []

/-- An execution under a new identifier joins the active ones. -/
theorem entries_begin {log : ExecutionLog} {e : Execution} (h : e.id ∉ log.active.keys) :
    (log.begin e).active.entries = log.active.entries ++ [(e.id, e)] :=
  setEntry_fresh e h

/-- The history stays the end of all that has finished. -/
theorem history_finish {log : ExecutionLog} {finished : List Execution} {limit : Nat}
    (h : log.history = finished.drop (finished.length - limit)) (e : Execution) :
    (log.finish e limit).history = (finished ++ [e]).drop ((finished ++ [e]).length - limit) := by
  have hsplit : (finished ++ [e]).drop (finished.length - limit) = log.history ++ [e] := by
    rw [h, List.drop_append_of_le_length (Nat.sub_le _ _)]
  show (log.history ++ [e]).drop ((log.history ++ [e]).length - limit) = _
  rw [← hsplit, List.drop_drop]
  congr 1
  simp only [List.length_drop, List.length_append, List.length_singleton]
  omega

namespace Traffic

/-- A call comes in, or one of the calls does a step, or something else is done to the state that
leaves the executions alone, such as the deletion of a workflow. -/
inductive Step (engine : Engine η) : Traffic η → Traffic η → Prop where
  | call {t : Traffic η} (id : Uuid) (context : Context) :
      Step engine t
        { t with calls := t.calls ++ [⟨id, (engine.executeWorkflow id context).run, none⟩] }
  | turn {t : Traffic η} {before after : List (OpenCall η)} {call : OpenCall η}
      {rest : Routine (State η) (Except EngineError Execution)} {s : State η}
      {begun : Option Execution} (hc : t.calls = before ++ call :: after)
      (hs : call.rest.Step t.state rest s) (hb : Begins call.rest t.state begun) :
      Step engine t ⟨s, before ++ OpenCall.unlessOver call.id (begun.or call.own) rest ++ after,
        t.begun ++ begun.toList, t.finished ++ returned rest,
        t.lost ++ losses call.id (begun.or call.own) t.state rest⟩
  | meanwhile {t : Traffic η} {s : State η} (h : s.executions = t.state.executions) :
      Step engine t { t with state := s }

/-- What can come of a state in which no call is under way. -/
def Reaches (engine : Engine η) (s : State η) : Traffic η → Prop :=
  Relation.ReflTransGen (Step engine) ⟨s, [], [], [], []⟩

/-- The finished executions that the history had to let go. -/
def evicted (engine : Engine η) (t : Traffic η) : List Execution :=
  t.finished.take (t.finished.length - engine.historyLimit)

/-- The identifiers of the executions that are active, in the history, or evicted. -/
def places (engine : Engine η) (t : Traffic η) : List Uuid :=
  t.state.executions.active.keys ++ t.state.executions.history.map Execution.id ++
    (t.evicted engine).map Execution.id

/-- Each execution that was begun is in one place only. It is active and running, or it is in the
history, or it had to leave the history. -/
structure Accounted (engine : Engine η) (t : Traffic η) : Prop where
  once : ∀ e ∈ t.begun, (t.places engine).count e.id = 1
  begun : ∀ id ∈ t.places engine, id ∈ t.begun.map Execution.id
  nodup : (t.places engine).Nodup
  running : ∀ entry ∈ t.state.executions.active.entries,
    entry.2.id = entry.1 ∧ entry.2.status = .running
  /-- The history is the end of what has finished, in that order. -/
  finished : t.evicted engine ++ t.state.executions.history = t.finished
  length : t.state.executions.history.length = min engine.historyLimit t.finished.length
  ended : ∀ e ∈ t.state.executions.history,
    (e.status = .completed ∨ e.status = .failed) ∧ e.endTime.isSome
  /-- When no call is in progress, the active executions are those that were lost, ... -/
  idle : t.calls = [] → t.state.executions.active.entries.Perm
    (t.lost.map fun lost => (lost.execution.id, lost.execution))
  /-- ... and none is lost unless the runs of the workflow could not be counted any more. -/
  full : ∀ lost ∈ t.lost, lost.state.Full (.workflow lost.id)

/-- How an open call goes on, by whether it has begun an execution. -/
inductive Proceeds (limit : Nat) : OpenCall η → Prop where
  | opening {id : Uuid} {rest : Routine (State η) (Except EngineError Execution)}
      (h : Opening limit id rest) : Proceeds limit ⟨id, rest, none⟩
  | concluding {id : Uuid} {rest : Routine (State η) (Except EngineError Execution)}
      {e : Execution} (h : Concluding limit id e rest) (hr : e.status = .running) :
      Proceeds limit ⟨id, rest, some e⟩

/-- The executions that were begun and have not finished: those of the open calls, and the lost
ones. -/
def unfinished (t : Traffic η) : List Execution :=
  t.calls.filterMap OpenCall.own ++ t.lost.map Lost.execution

/-- The executions are accounted for. -/
structure Balanced (engine : Engine η) (t : Traffic η) : Prop where
  calls : ∀ call ∈ t.calls, Proceeds engine.historyLimit call
  active : t.state.executions.active.entries.Perm (t.unfinished.map fun e => (e.id, e))
  history : t.state.executions.history =
    t.finished.drop (t.finished.length - engine.historyLimit)
  begun : (t.begun.map Execution.id).Perm ((t.unfinished ++ t.finished).map Execution.id)
  ended : ∀ e ∈ t.finished, (e.status = .completed ∨ e.status = .failed) ∧ e.endTime.isSome
  lost : ∀ lost ∈ t.lost, lost.execution.status = .running ∧ lost.state.Full (.workflow lost.id)

/-- A commit that does not make an execution active where there is none. -/
def Quiet (update : State η → State η) : Prop :=
  ∀ s, s.executions.active = Dict.empty → (update s).executions.active = Dict.empty

theorem quiet_finish (limit : Nat) (e : Execution) :
    Quiet fun s : State η => { s with executions := s.executions.finish e limit } := by
  intro s hs
  show s.executions.active.erase e.id = Dict.empty
  rw [hs]
  rfl

/-- A commit that begins no execution. -/
theorem begins_of_quiet {update : State η → State η} {next : State η → Routine (State η) α}
    (hq : Quiet update) {s : State η} {begun : Option Execution}
    (h : Begins (.commit update next) s begun) : begun = none := by
  generalize hp : Routine.commit update next = p at h
  cases h with
  | other h => rfl
  | @begin workflowId next' _ e h =>
    injection hp with hupdate
    have hempty := hq { s with executions := ExecutionLog.empty } rfl
    rw [hupdate] at hempty
    cases hempty

theorem runAlone_beginExecution (workflowId : Uuid) (s : State η) :
    ∃ e, ((beginExecution workflowId).runAlone s).outcome = .ok e ∧ e.id = s.takeId.1 ∧
      e.status = .running ∧
      ((beginExecution workflowId).runAlone s).state.executions = s.executions.begin e :=
  ⟨_, rfl, rfl, rfl, rfl⟩

theorem begins_none {update : State η → State η} {next : State η → Routine (State η) α}
    (hq : Quiet update) {s : State η} : Begins (.commit update next) s none := by
  apply Begins.other
  intro workflowId other hp
  cases begins_of_quiet hq (hp ▸ Begins.begin (runAlone_beginExecution workflowId s).choose_spec.1)

theorem begins_of_pause {length : Duration} {next : Routine (State η) α} {s : State η}
    {begun : Option Execution} (h : Begins (.pause length next) s begun) : begun = none := by
  generalize hp : Routine.pause length next = p at h
  cases h with
  | other h => rfl
  | begin h => cases hp

theorem begin_injective {log : ExecutionLog} {e other : Execution} (hid : e.id = other.id)
    (h : log.begin e = log.begin other) : e = other := by
  have hget := congrArg (fun log : ExecutionLog => log.active.get? e.id) h
  simp only [ExecutionLog.begin, Dict.get?_insert, hid, if_pos] at hget
  exact Option.some.inj hget

/-- A step that begins an execution. -/
theorem begins_of_begin {workflowId : Uuid} {next : Execution → Routine (State η) α}
    {s s' : State η} {begun : Option Execution} {rest : Routine (State η) α}
    (h : Begins (beginExecution workflowId >>= next) s begun)
    (hs : (beginExecution workflowId >>= next).Step s rest s') :
    ∃ e, begun = some e ∧ e.status = .running ∧ s'.executions = s.executions.begin e ∧
      rest = next e := by
  obtain ⟨e, he, hid, hr, hexecutions⟩ := runAlone_beginExecution workflowId s
  have hstep : s' = ((beginExecution workflowId).runAlone s).state ∧ rest = next e := by
    cases hs with
    | commit =>
      cases he
      exact ⟨rfl, rfl⟩
  refine ⟨e, ?_, hr, hstep.1 ▸ hexecutions, hstep.2⟩
  generalize hp : beginExecution workflowId >>= next = p at h
  cases h with
  | other h => exact absurd hp.symm (h workflowId next)
  | @begin otherId next' _ other h =>
    obtain ⟨_, ho, hotherId, -, hother⟩ := runAlone_beginExecution otherId s
    obtain rfl := Except.ok.inj (h.symm.trans ho)
    -- both make the same commit, so they make the same execution active
    injection hp with hupdate
    have hstate : ((beginExecution workflowId).runAlone s).state =
        ((beginExecution otherId).runAlone s).state := congrFun hupdate s
    rw [hstate, hother] at hexecutions
    exact congrArg some (begin_injective (hid.trans hotherId.symm) hexecutions.symm).symm

theorem over_of_archiving (id : Uuid) (own : Option Execution) (s : State η) (limit : Nat)
    (e : Execution) :
    let rest : Routine (State η) (Except EngineError Execution) := archiving limit e
    OpenCall.unlessOver id own rest = [⟨id, rest, own⟩] ∧ returned rest = [] ∧
      losses id own s rest = [] :=
  ⟨rfl, rfl, rfl⟩

theorem over_of_concluding {limit : Nat} {id : Uuid} {e : Execution} (own : Option Execution)
    (s : State η) {rest : Routine (State η) (Except EngineError Execution)}
    (h : Concluding limit id e rest) :
    OpenCall.unlessOver id own rest = [⟨id, rest, own⟩] ∧ returned rest = [] ∧
      losses id own s rest = [] := by
  cases h with
  | commit hk hn => exact ⟨rfl, rfl, rfl⟩
  | pause h => exact ⟨rfl, rfl, rfl⟩
  | count h => exact ⟨rfl, rfl, rfl⟩
  | archive h => exact over_of_archiving id own s limit _

/-- A call that has not begun an execution returns none. -/
theorem over_of_opening {limit : Nat} {id : Uuid} (s : State η)
    {rest : Routine (State η) (Except EngineError Execution)} (h : Opening limit id rest) :
    (∀ call ∈ OpenCall.unlessOver id none rest, Proceeds limit call) ∧
      (OpenCall.unlessOver id none rest).filterMap OpenCall.own = [] ∧ returned rest = [] ∧
      losses id none s rest = [] := by
  have hone : ∀ call ∈ [(⟨id, rest, none⟩ : OpenCall η)], Proceeds limit call :=
    List.forall_mem_singleton.mpr (.opening h)
  cases h with
  | read hn => exact ⟨hone, rfl, rfl, rfl⟩
  | refuse e => exact ⟨by simp [OpenCall.unlessOver], rfl, rfl, rfl⟩
  | begin hn => exact ⟨hone, rfl, rfl, rfl⟩

variable {engine : Engine η} {t : Traffic η} {s : State η} {before after new : List (OpenCall η)}
  {call : OpenCall η} {e : Execution}

/-- The other calls go on as before. -/
theorem Balanced.others (h : Balanced engine t) (hc : t.calls = before ++ call :: after)
    (hnew : ∀ call ∈ new, Proceeds engine.historyLimit call) :
    ∀ call ∈ before ++ new ++ after, Proceeds engine.historyLimit call := by
  have hcalls := h.calls
  rw [hc] at hcalls
  simp only [List.forall_mem_append, List.forall_mem_cons] at hcalls ⊢
  exact ⟨⟨hcalls.1, hnew⟩, hcalls.2.2⟩

/-- What is unfinished after a step of a call: its own execution goes, and that of what is left of
the call comes, or it is lost. -/
theorem unfinished_perm (hc : t.calls = before ++ call :: after) (s : State η)
    (begun finished : List Execution) (lost : List (Lost η)) :
    ((⟨s, before ++ new ++ after, begun, finished, t.lost ++ lost⟩ : Traffic η).unfinished ++
      call.own.toList).Perm
      (t.unfinished ++ (new.filterMap OpenCall.own ++ lost.map Lost.execution)) := by
  classical
  have hcall : List.filterMap OpenCall.own (call :: after) =
      call.own.toList ++ after.filterMap OpenCall.own := by
    cases ho : call.own <;> simp [ho]
  rw [List.perm_iff_count]
  intro e
  simp only [unfinished, hc, List.filterMap_append, hcall, List.map_append, List.count_append]
  omega

/-- A step that leaves the executions alone. -/
theorem Balanced.keep (h : Balanced engine t) (hc : t.calls = before ++ call :: after)
    (hnew : ∀ call ∈ new, Proceeds engine.historyLimit call) {losses : List (Lost η)}
    (hlost : ∀ lost ∈ losses,
      lost.execution.status = .running ∧ lost.state.Full (.workflow lost.id))
    (hown : new.filterMap OpenCall.own ++ losses.map Lost.execution = call.own.toList)
    (hs : s.executions = t.state.executions) :
    Balanced engine ⟨s, before ++ new ++ after, t.begun, t.finished, t.lost ++ losses⟩ := by
  have hperm := @unfinished_perm _ t before after new call hc s t.begun t.finished losses
  rw [hown, List.perm_append_right_iff] at hperm
  constructor
  · exact h.others hc hnew
  · rw [hs]
    exact h.active.trans (hperm.symm.map _)
  · rw [hs]
    exact h.history
  · exact h.begun.trans ((hperm.symm.append_right _).map _)
  · exact h.ended
  · exact List.forall_mem_append.mpr ⟨h.lost, hlost⟩

/-- Active executions were begun. -/
theorem Balanced.mem_begun (h : Balanced engine t) {id : Uuid}
    (hid : id ∈ t.state.executions.active.keys) : id ∈ t.begun.map Execution.id := by
  obtain ⟨entry, hentry, rfl⟩ := List.mem_map.mp hid
  obtain ⟨e, he, rfl⟩ := List.mem_map.mp (h.active.mem_iff.mp hentry)
  apply h.begun.mem_iff.mpr
  exact List.mem_map_of_mem (List.mem_append_left _ he)

/-- A call begins an execution. -/
theorem Balanced.start (h : Balanced engine t) (hc : t.calls = before ++ call :: after)
    (hown : call.own = none) {id : Uuid} {rest : Routine (State η) (Except EngineError Execution)}
    (hrest : Concluding engine.historyLimit id e rest) (hr : e.status = .running)
    (hfresh : e.id ∉ t.begun.map Execution.id)
    (hs : s.executions = t.state.executions.begin e) :
    Balanced engine
      ⟨s, before ++ [⟨id, rest, some e⟩] ++ after, t.begun ++ [e], t.finished, t.lost⟩ := by
  have hperm := @unfinished_perm _ t before after [⟨id, rest, some e⟩] call hc s (t.begun ++ [e])
    t.finished []
  rw [hown, Option.toList_none, List.append_nil, List.append_nil] at hperm
  change List.Perm _ (t.unfinished ++ [e]) at hperm
  constructor
  · exact h.others hc (List.forall_mem_singleton.mpr (.concluding hrest hr))
  · have hkey : e.id ∉ t.state.executions.active.keys := fun hmem => hfresh (h.mem_begun hmem)
    have hmap := (hperm.map fun e => (e.id, e)).symm
    rw [List.map_append] at hmap
    show s.executions.active.entries.Perm _
    rw [hs, entries_begin hkey]
    exact (h.active.append_right _).trans hmap
  · show s.executions.history = _
    rw [hs]
    exact h.history
  · have hall := (hperm.append_right t.finished).map Execution.id
    show ((t.begun ++ [e]).map Execution.id).Perm _
    refine List.Perm.trans ?_ hall.symm
    rw [List.map_append]
    refine (h.begun.append_right _).trans ?_
    rw [← List.map_append]
    apply List.Perm.map
    rw [List.append_assoc, List.append_assoc]
    exact List.perm_append_comm.append_left _
  · exact h.ended
  · exact h.lost

/-- A call returns its execution. -/
theorem Balanced.archive (h : Balanced engine t) (hc : t.calls = before ++ call :: after)
    (hown : call.own = some e) (hids : (t.begun.map Execution.id).Nodup) {last : Execution}
    (hl : Concludes e last)
    (hs : s.executions = t.state.executions.finish last engine.historyLimit) :
    Balanced engine ⟨s, before ++ [] ++ after, t.begun, t.finished ++ [last], t.lost⟩ := by
  have hperm := @unfinished_perm _ t before after [] call hc s t.begun (t.finished ++ [last]) []
  rw [hown, Option.toList_some, List.filterMap_nil, List.map_nil, List.append_nil, List.append_nil,
    List.append_nil, List.append_nil] at hperm
  rw [List.append_nil]
  generalize hleft : (⟨s, before ++ after, t.begun, t.finished ++ [last], t.lost⟩ : Traffic η) =
    left at hperm ⊢
  have hfirst : t.unfinished.Perm (e :: left.unfinished) :=
    hperm.symm.trans (List.perm_append_singleton _ _)
  have hothers : ∀ other ∈ left.unfinished, other.id ≠ e.id := by
    have hnodup := (h.begun.nodup_iff.mp hids).sublist ((List.sublist_append_left _ _).map _)
    have hcons := (hfirst.map Execution.id).nodup_iff.mp hnodup
    intro other hother he
    exact (List.nodup_cons.mp hcons).1 (he ▸ List.mem_map_of_mem hother)
  subst hleft
  constructor
  · have hall := @Balanced.others _ engine t before after [] call h hc (List.forall_mem_nil _)
    rwa [List.append_nil] at hall
  · show s.executions.active.entries.Perm _
    have hactive := (h.active.trans (hfirst.map fun e => (e.id, e))).filter fun entry =>
      entry.1 ≠ last.id
    rw [hs]
    refine hactive.trans ?_
    rw [List.map_cons, List.filter_cons_of_neg (by simp [hl.id]), List.filter_eq_self.mpr]
    intro entry hentry
    obtain ⟨other, hother, rfl⟩ := List.mem_map.mp hentry
    simpa [hl.id] using hothers other hother
  · show s.executions.history = _
    rw [hs]
    exact history_finish h.history last
  · refine h.begun.trans (((hfirst.append_right t.finished).map Execution.id).trans ?_)
    simp only [List.map_append, List.map_cons, List.map_nil, List.cons_append, hl.id]
    rw [← List.append_assoc]
    exact (List.perm_append_singleton _ _).symm
  · exact List.forall_mem_append.mpr
      ⟨h.ended, List.forall_mem_singleton.mpr ⟨hl.status, hl.endTime⟩⟩
  · exact h.lost

/-- A call that has begun an execution does a step. -/
theorem Balanced.conclude (h : Balanced engine t) (hc : t.calls = before ++ call :: after)
    {rest : Routine (State η) (Except EngineError Execution)}
    (hcall : Concluding engine.historyLimit call.id e call.rest) (hown : call.own = some e)
    (hr : e.status = .running) (hs : call.rest.Step t.state rest s)
    (hids : (t.begun.map Execution.id).Nodup) :
    Balanced engine ⟨s, before ++ OpenCall.unlessOver call.id (some e) rest ++ after, t.begun,
      t.finished ++ returned rest, t.lost ++ losses call.id (some e) t.state rest⟩ := by
  have hgoes : ∀ {rest s}, Concluding engine.historyLimit call.id e rest →
      s.executions = t.state.executions →
        Balanced engine ⟨s, before ++ OpenCall.unlessOver call.id (some e) rest ++ after, t.begun,
          t.finished ++ returned rest, t.lost ++ losses call.id (some e) t.state rest⟩ := by
    intro rest s hrest hexecutions
    obtain ⟨hnew, hreturned, hlosses⟩ := over_of_concluding (some e) t.state hrest
    rw [hnew, hreturned, hlosses, List.append_nil]
    exact h.keep hc (List.forall_mem_singleton.mpr (.concluding hrest hr)) (List.forall_mem_nil _)
      (by rw [hown]; rfl) hexecutions
  obtain ⟨id, current, own⟩ := call
  dsimp only at hcall hown hs hgoes ⊢
  cases hcall with
  | commit hk hn =>
    cases hs with
    | commit => exact hgoes (hn t.state) (hk t.state)
  | pause hn =>
    cases hs with
    | pause => exact hgoes hn rfl
  | @count now vars last hl =>
    cases hs with
    | commit =>
      by_cases hfull : t.state.Full (.workflow id)
      · -- the call crashes, and its execution stays active
        simp only [if_pos hfull]
        have hlost := @Balanced.keep _ engine t (countWorkflow id now vars t.state) before after []
          _ h hc (List.forall_mem_nil _) [⟨id, e, t.state⟩]
          (List.forall_mem_singleton.mpr ⟨hr, hfull⟩) (by rw [hown]; rfl)
          (keeps_countWorkflow id now vars t.state)
        rwa [← List.append_nil t.finished] at hlost
      · simp only [if_neg hfull]
        exact hgoes (.archive hl) (keeps_countWorkflow id now vars t.state)
  | archive hl =>
    cases hs with
    | commit =>
      have hlast := @Balanced.archive _ engine t
        { t.state with executions := t.state.executions.finish _ engine.historyLimit } before after
        _ e h hc hown hids _ hl rfl
      rwa [← List.append_nil t.lost] at hlast

theorem begins_of_concluding {limit : Nat} {id : Uuid}
    {rest : Routine (State η) (Except EngineError Execution)} {begun : Option Execution}
    (h : Concluding limit id e rest) (hb : Begins rest s begun) : begun = none := by
  have hquiet : ∀ {update : State η → State η}, Keeps update → Quiet update := fun hk s hs => by
    rw [hk]
    exact hs
  cases h with
  | commit hk hn => exact begins_of_quiet (hquiet hk) hb
  | pause hn => exact begins_of_pause hb
  | @count now vars => exact begins_of_quiet (hquiet (keeps_countWorkflow id now vars)) hb
  | archive hl => exact begins_of_quiet (quiet_finish _ _) hb

theorem Balanced.turn (h : Balanced engine t) (hc : t.calls = before ++ call :: after)
    {rest : Routine (State η) (Except EngineError Execution)} {begun : Option Execution}
    (hs : call.rest.Step t.state rest s) (hb : Begins call.rest t.state begun)
    (hids : ((t.begun ++ begun.toList).map Execution.id).Nodup) :
    Balanced engine ⟨s, before ++ OpenCall.unlessOver call.id (begun.or call.own) rest ++ after,
      t.begun ++ begun.toList, t.finished ++ returned rest,
      t.lost ++ losses call.id (begun.or call.own) t.state rest⟩ := by
  have hcall : Proceeds engine.historyLimit call := by
    apply h.calls
    rw [hc]
    exact List.mem_append_right _ List.mem_cons_self
  cases hcall with
  | opening hcall =>
    cases hcall with
    | @read next hn =>
      obtain rfl := begins_of_quiet (fun _ he => he) hb
      cases hs with
      | commit =>
        obtain ⟨hnew, hown, hreturned, hlosses⟩ := over_of_opening t.state (hn t.state)
        have hkept := h.keep hc hnew (List.forall_mem_nil _) (by rw [hown]; rfl)
          (rfl : t.state.executions = _)
        rw [hreturned, Option.or_none, hlosses, Option.toList_none, List.append_nil,
          List.append_nil]
        exact hkept
    | refuse e => cases hs
    | @begin workflowId next hn =>
      obtain ⟨e, rfl, hr, hexecutions, rfl⟩ := begins_of_begin hb hs
      obtain ⟨hnew, hreturned, hlosses⟩ := over_of_concluding ((some e).or none) t.state (hn e)
      rw [Option.toList_some, List.map_append, List.nodup_append] at hids
      have hfresh : e.id ∉ t.begun.map Execution.id := fun hmem =>
        hids.2.2 e.id hmem e.id (List.mem_singleton_self _) rfl
      rw [hreturned, hnew, hlosses, List.append_nil, List.append_nil]
      exact h.start hc rfl (hn e) hr hfresh hexecutions
  | concluding hcall hr =>
    obtain rfl := begins_of_concluding hcall hb
    rw [Option.none_or, Option.toList_none, List.append_nil] at *
    exact h.conclude hc hcall rfl hr hs hids

theorem Step.balanced {t' : Traffic η} (hs : Step engine t t') (h : Balanced engine t)
    (hids : (t'.begun.map Execution.id).Nodup) : Balanced engine t' := by
  cases hs with
  | call id context =>
    have hnew := Proceeds.opening (opening_executeWorkflow engine id context)
    have hunfinished : ({ t with calls := t.calls ++
        [⟨id, (engine.executeWorkflow id context).run, none⟩] } : Traffic η).unfinished =
          t.unfinished := by
      rw [unfinished, unfinished, List.filterMap_append]
      exact congrArg (· ++ _) (List.append_nil _)
    constructor
    · exact List.forall_mem_append.mpr ⟨h.calls, List.forall_mem_singleton.mpr hnew⟩
    · rw [hunfinished]
      exact h.active
    · exact h.history
    · rw [hunfinished]
      exact h.begun
    · exact h.ended
    · exact h.lost
  | turn hc hs hb => exact h.turn hc hs hb hids
  | meanwhile hs =>
    constructor
    · exact h.calls
    · rw [hs]
      exact h.active
    · rw [hs]
      exact h.history
    · exact h.begun
    · exact h.ended
    · exact h.lost

/-- What has begun stays so. -/
theorem Step.begun_prefix {t' : Traffic η} (hs : Step engine t t') : t.begun <+: t'.begun := by
  cases hs with
  | call id context => exact List.prefix_rfl
  | turn hc hs hb => exact List.prefix_append _ _
  | meanwhile hs => exact List.prefix_rfl

theorem Reaches.balanced {start : State η} (h : Reaches engine start t)
    (hstart : start.executions = ExecutionLog.empty) (hids : (t.begun.map Execution.id).Nodup) :
    Balanced engine t := by
  induction h with
  | refl =>
    constructor
    · simp
    · rw [hstart]
      exact .nil
    · rw [hstart]
      exact List.drop_nil.symm
    · exact .nil
    · simp
    · simp
  | tail hreach hs ih =>
    have hsub := hs.begun_prefix.sublist.map Execution.id
    exact hs.balanced (ih (hids.sublist hsub)) hids

theorem Balanced.evicted_append (h : Balanced engine t) :
    t.evicted engine ++ t.state.executions.history = t.finished := by
  rw [evicted, h.history, List.take_append_drop]

/-- The three places together hold what has begun. -/
theorem Balanced.places_perm (h : Balanced engine t) :
    (t.places engine).Perm (t.begun.map Execution.id) := by
  have hkeys : t.state.executions.active.keys.Perm (t.unfinished.map Execution.id) := by
    have hfirst := h.active.map Prod.fst
    rw [List.map_map] at hfirst
    exact hfirst
  have hfinished : (t.state.executions.history.map Execution.id ++
      (t.evicted engine).map Execution.id).Perm (t.finished.map Execution.id) := by
    rw [← h.evicted_append, List.map_append]
    exact List.perm_append_comm
  rw [places, List.append_assoc]
  refine (hkeys.append hfinished).trans ?_
  rw [← List.map_append]
  exact h.begun.symm

/-- An active execution is that of a call, or it is lost. -/
theorem Balanced.active_running (h : Balanced engine t) {entry : Uuid × Execution}
    (he : entry ∈ t.state.executions.active.entries) :
    entry.2.id = entry.1 ∧ entry.2.status = .running := by
  obtain ⟨e, hunfinished, rfl⟩ := List.mem_map.mp (h.active.mem_iff.mp he)
  refine ⟨rfl, ?_⟩
  rcases List.mem_append.mp hunfinished with hown | hlost
  · obtain ⟨call, hcall, hcallOwn⟩ := List.mem_filterMap.mp hown
    cases h.calls call hcall with
    | opening hrest => cases hcallOwn
    | concluding hrest hr =>
      obtain rfl := Option.some.inj hcallOwn
      exact hr
  · obtain ⟨lost, hmem, rfl⟩ := List.mem_map.mp hlost
    exact (h.lost lost hmem).1

/-- Whatever calls run workflows side by side, however they end and whatever is done to the stored
workflows meanwhile, the executions are accounted for if no identifier was given out twice. When no
call is in progress those are still active whose calls crashed because their runs could not be
counted, and no others. -/
theorem executions_accounted (engine : Engine η) {start : State η} {t : Traffic η}
    (h : Reaches engine start t) (hstart : start.executions = ExecutionLog.empty)
    (hids : (t.begun.map Execution.id).Nodup) : Accounted engine t := by
  have hbalanced := h.balanced hstart hids
  have hperm := hbalanced.places_perm
  have hnodup : (t.places engine).Nodup := hperm.nodup_iff.mpr hids
  have hfinished := hbalanced.evicted_append
  refine ⟨?_, fun id hid => hperm.mem_iff.mp hid, hnodup, fun entry => hbalanced.active_running,
    hfinished, ?_, ?_, ?_, fun lost hlost => (hbalanced.lost lost hlost).2⟩
  · intro e he
    apply List.count_eq_one_of_mem hnodup
    exact hperm.mem_iff.mpr (List.mem_map_of_mem he)
  · rw [hbalanced.history, List.length_drop]
    omega
  · intro e he
    apply hbalanced.ended
    rw [← hfinished]
    exact List.mem_append_right _ he
  · intro hcalls
    have hactive := hbalanced.active
    rw [unfinished, hcalls, List.filterMap_nil, List.nil_append, List.map_map] at hactive
    exact hactive

/-- A step of the only call. -/
theorem Reaches.sole {start s' : State η} {id : Uuid}
    {rest rest' : Routine (State η) (Except EngineError Execution)}
    {own next : Option Execution} {begun finished : List Execution} {lost : List (Lost η)}
    (h : Reaches engine start ⟨s, [⟨id, rest, own⟩], begun, finished, lost⟩)
    (hs : rest.Step s rest' s') (hb : Begins rest s next) :
    Reaches engine start ⟨s', OpenCall.unlessOver id (next.or own) rest', begun ++ next.toList,
      finished ++ returned rest', lost ++ losses id (next.or own) s rest'⟩ := by
  have hstep := h.tail (@Step.turn _ _ _ [] [] _ _ _ _ rfl hs hb)
  rwa [List.nil_append, List.append_nil] at hstep

/-- A step of the only call after which it is still under way. -/
theorem Reaches.sole_concluding {start s' : State η} {id : Uuid} {limit : Nat}
    {rest rest' : Routine (State η) (Except EngineError Execution)}
    {begun finished : List Execution} {lost : List (Lost η)}
    (h : Reaches engine start ⟨s, [⟨id, rest, some e⟩], begun, finished, lost⟩)
    (hs : rest.Step s rest' s') (hb : Begins rest s none) (hc : Concluding limit id e rest') :
    Reaches engine start ⟨s', [⟨id, rest', some e⟩], begun, finished, lost⟩ := by
  have hstep := h.sole hs hb
  obtain ⟨hnew, hreturned, hlosses⟩ := over_of_concluding (some e) s hc
  rw [Option.none_or, hnew, hreturned, hlosses, Option.toList_none] at hstep
  simpa only [List.append_nil] using hstep

/-- The only call goes on to its end: it returns its execution, or it crashes and loses it. -/
theorem Reaches.conclude {start : State η} {limit : Nat} {id : Uuid}
    {rest : Routine (State η) (Except EngineError Execution)} {begun finished : List Execution}
    {lost : List (Lost η)}
    (h : Reaches engine start ⟨s, [⟨id, rest, some e⟩], begun, finished, lost⟩)
    (hc : Concluding limit id e rest) :
    (∃ last, (rest.runAlone s).outcome = .ok (.ok last) ∧
      Reaches engine start ⟨(rest.runAlone s).state, [], begun, finished ++ [last], lost⟩) ∨
    ∃ message before, (rest.runAlone s).outcome = .error message ∧
      Reaches engine start
        ⟨(rest.runAlone s).state, [], begun, finished, lost ++ [⟨id, e, before⟩]⟩ := by
  have harchive : ∀ {s last}, Reaches engine start
      ⟨s, [⟨id, archiving limit last, some e⟩], begun, finished, lost⟩ →
        Reaches engine start ⟨((archiving limit last).runAlone s).state, [], begun,
          finished ++ [last], lost⟩ := by
    intro s last h
    have hlast := h.sole .commit (begins_none (quiet_finish limit last))
    rw [Option.toList_none, List.append_nil] at hlast
    rw [← List.append_nil lost]
    exact hlast
  induction hc generalizing s with
  | @commit update next hk hn ih =>
    exact ih s (h.sole_concluding .commit (begins_none fun s hs => by rw [hk]; exact hs) (hn s))
  | @pause length next hn ih =>
    exact ih (h.sole_concluding .pause (.other fun _ _ he => by cases he) hn)
  | @count now vars last hl =>
    have hstep := h.sole .commit (begins_none fun s hs => by rw [keeps_countWorkflow]; exact hs)
    rw [Option.none_or, Option.toList_none, List.append_nil] at hstep
    rw [Routine.runAlone]
    by_cases hfull : s.Full (.workflow id)
    · simp only [if_pos hfull] at hstep ⊢
      rw [← List.append_nil finished]
      exact Or.inr ⟨_, _, rfl, hstep⟩
    · simp only [if_neg hfull] at hstep ⊢
      obtain ⟨hnew, hreturned, hlosses⟩ := over_of_archiving id (some e) s limit last
      rw [hnew, hreturned, hlosses, List.append_nil, List.append_nil] at hstep
      exact Or.inl ⟨last, rfl, harchive hstep⟩
  | @archive last hl => exact Or.inl ⟨last, rfl, harchive h⟩

/-- A call for a workflow that is there, and no other call meanwhile. -/
theorem Reaches.execute {start : State η} {begun finished : List Execution} {lost : List (Lost η)}
    (h : Reaches engine start ⟨s, [], begun, finished, lost⟩) {id : Uuid} {w : Workflow}
    (hw : s.workflows.get id = .ok w) (context : Context) :
    let ending := (engine.executeWorkflow id context).run.runAlone s
    ∃ e, e.id = s.takeId.1 ∧
      ((∃ last, ending.outcome = .ok (.ok last) ∧
        Reaches engine start ⟨ending.state, [], begun ++ [e], finished ++ [last], lost⟩) ∨
      ∃ message before, ending.outcome = .error message ∧
        Reaches engine start
          ⟨ending.state, [], begun ++ [e], finished, lost ++ [⟨id, e, before⟩]⟩) := by
  intro ending
  let next (started : Execution) : Routine (State η) (Except EngineError Execution) :=
    engine.runToEnd w started context >>= engine.conclude id
  have hcall : Reaches engine start
      ⟨s, [⟨id, (engine.executeWorkflow id context).run, none⟩], begun, finished, lost⟩ :=
    h.tail (.call id context)
  rw [run_executeWorkflow] at hcall
  have hlook := hcall.sole .commit (begins_none fun _ h => h)
  simp only [hw] at hlook
  have hread : Reaches engine start
      ⟨s, [⟨id, beginExecution w.id >>= next, none⟩], begun ++ [], finished ++ [], lost ++ []⟩ :=
    hlook
  simp only [List.append_nil] at hread
  obtain ⟨e, he, hid, -, -⟩ := runAlone_beginExecution w.id s
  let begin := (beginExecution w.id).runAlone s
  have hstep : (beginExecution w.id >>= next).Step s (next e) begin.state := by
    cases he
    exact .commit
  have hbegin := Reaches.sole hread hstep (.begin he)
  have hconcluding : Concluding engine.historyLimit id e (next e) :=
    concluding_runToEnd engine id w e context
  obtain ⟨hnew, hreturned, hlosses⟩ := over_of_concluding ((some e).or none) s hconcluding
  rw [hnew, hreturned, hlosses, List.append_nil, List.append_nil] at hbegin
  have hending : ending = (next e).runAlone begin.state := by
    show (engine.executeWorkflow id context).run.runAlone s = _
    rw [run_executeWorkflow, Routine.runAlone, hw]
    cases he
    rfl
  rw [hending]
  exact ⟨e, hid, hbegin.conclude hconcluding⟩

/-- A workflow of which one more run can be counted is executed twice. The second execution is lost:
no call is in progress, and it is still active. -/
theorem executions_accounted_brim :
    let world : World Unit := ⟨(), 0, ⟨fun n => ⟨BitVec.ofNat 128 n⟩, 0⟩, ⟨fun n => ⟨n, 0⟩, 0⟩,
      ⟨fun n => n, 0⟩, ⟨fun n => n, 0⟩⟩
    let engine : Engine Unit :=
      ⟨Registry.empty, ⟨Dict.empty, .stored, .standard⟩, Catalog.builtin, 100, taskCrashed⟩
    let w := { Workflow.create ⟨7⟩ ⟨0, 0⟩ "brim" .manual with runCount := 18446744073709551614 }
    let start : State Unit := { State.start world with
      workflows := ⟨"workflows", false, Dict.empty.insert w.id w⟩ }
    ∃ t : Traffic Unit, Reaches engine start t ∧ start.executions = ExecutionLog.empty ∧
      (t.begun.map Execution.id).Nodup ∧ t.calls = [] ∧ t.finished.length = 1 ∧
      t.lost.length = 1 ∧ t.state.executions.active.entries.length = 1 ∧ Accounted engine t := by
  intro world engine w start
  let call := (engine.executeWorkflow w.id Dict.empty).run
  let midway := (call.runAlone start).state
  have hrow : (midway.workflows.get w.id).toBool := by decide +kernel
  have hfirst : (call.runAlone start).outcome.toBool = true := by decide +kernel
  have hsecond : (call.runAlone midway).outcome.toBool = false := by decide +kernel
  obtain ⟨e, hid, ⟨last, -, hmidway⟩ | ⟨message, _, he, -⟩⟩ :=
    @Reaches.execute _ engine start start [] [] [] .refl w.id w rfl Dict.empty
  swap
  · rw [he] at hfirst
    cases hfirst
  cases hw : midway.workflows.get w.id with
  | error cause =>
    rw [hw] at hrow
    cases hrow
  | ok w' =>
    obtain ⟨f, hidf, ⟨last, he, -⟩ | ⟨message, before, -, hlast⟩⟩ :=
      hmidway.execute hw Dict.empty
    · rw [he] at hsecond
      cases hsecond
    · have hids : (([] ++ [e] ++ [f]).map Execution.id).Nodup := by
        rw [List.nil_append, List.singleton_append, List.map_cons, List.map_singleton, hid, hidf]
        decide +kernel
      have haccounted := executions_accounted engine hlast rfl hids
      exact ⟨_, hlast, rfl, hids, rfl, rfl, rfl, (haccounted.idle rfl).length_eq, haccounted⟩

end Traffic
end Automation.Engine
