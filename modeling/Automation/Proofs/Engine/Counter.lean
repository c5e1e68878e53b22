import Automation.Proofs.Engine.Books
import Automation.Proofs.Engine.Export

/-!
# The counter of an imported workflow

An import takes over the count of runs as the text has it, which can be any number of 64 bits. From
there on every execution of the workflow that finishes makes the count one larger, in one of its
steps, whatever else is under way. An execution that finds the counter full cannot be counted: it
crashes when it has come to its end, and does not finish. So all executions finish if and only if
the count and their number stay below 2⁶⁴ together.
-/
namespace Automation.Engine

open Routine

variable {η : Type}

/-- How often a workflow has run, as it is stored. -/
def State.runCount? (s : State η) (id : Uuid) : Option UInt64 := s.runs? (.workflow id)

/-- A step that leaves the count of runs of a workflow as it is. -/
def KeepsCount (id : Uuid) (step : State η × State η) : Prop :=
  step.2.runCount? id = step.1.runCount? id

/-- In one of the steps the count of runs of a workflow becomes one larger, and in all others it
stays. -/
def CountsOnce (id : Uuid) (steps : List (State η × State η)) : Prop :=
  ∃ before s s' after a b, steps = before ++ (s, s') :: after ∧
    (∀ step ∈ before ++ after, KeepsCount id step) ∧
    s.runCount? id = some a ∧ s'.runCount? id = some b ∧ b.toNat = a.toNat + 1

theorem Untouched.keepsCount {step : State η × State η} (h : Untouched step) (id : Uuid) :
    KeepsCount id step := by
  rw [KeepsCount, State.runCount?, State.runCount?, State.runs?_eq, State.runs?_eq, h]

/-- A count that finds room makes the number one larger. -/
theorem countsOnce_of_count {id : Uuid} {before after : List (State η × State η)} {u : State η}
    {now : Instant} {vars : Variables} {tally : Tally} (h : u.tally? (.workflow id) = some tally)
    (hroom : ¬ u.Full (.workflow id)) (hbefore : ∀ step ∈ before, Untouched step)
    (hafter : ∀ step ∈ after, Untouched step) :
    CountsOnce id (before ++ (u, countWorkflow id now vars u) :: after) := by
  have hlt := State.room_of_not_full h hroom
  refine ⟨before, u, _, after, tally.runs, tally.runs + 1, rfl, fun step hstep => ?_, ?_, ?_, ?_⟩
  · rcases List.mem_append.mp hstep with hstep | hstep
    · exact (hbefore step hstep).keepsCount id
    · exact (hafter step hstep).keepsCount id
  · rw [State.runCount?, State.runs?_eq, h]
    rfl
  · rw [State.runCount?, State.runs?_eq, tally_countWorkflow _ now hroom, if_pos rfl, h]
    rfl
  · rw [UInt64.toNat_add, show (1 : UInt64).toNat = 1 from rfl]
    omega

/-- How an execution of a workflow has gone when it has ended. -/
inductive Went (id : Uuid) (call : BookedCall η) : Prop where
  | counted (hf : call.finished) (hc : CountsOnce id call.steps)
  /-- It has found the counter full, and has left it so. -/
  | lost {context : Context} {outcome : Except String Bool}
      (hr : call.request.Executes id context outcome) (ho : call.rest.outcome? = some outcome)
      (hfull : ∃ step ∈ call.steps, step.1.runCount? id = some Counter.largest)
      (hkeep : ∀ step ∈ call.steps, KeepsCount id step)

namespace BookedCall

/-- Whether a call is an execution of a workflow. -/
def executes (id : Uuid) (call : BookedCall η) : Bool :=
  match call.request with
  | .executeWorkflow key _ | .runWorkflow key _ => key = id
  | _ => false

variable {engine : Engine η} {id : Uuid} {call : BookedCall η}

theorem request_of_executes (h : call.executes id) :
    ∃ context lost, call.request.Executes id context lost := by
  unfold executes at h
  split at h
  · next key context hrequest =>
    rw [hrequest, of_decide_eq_true h]
    exact ⟨context, _, .call⟩
  · next key context hrequest =>
    rw [hrequest, of_decide_eq_true h]
    exact ⟨context, _, .task⟩
  · cases h

/-- Only an execution of a workflow enters a run of it. -/
theorem executes_of_counts {s s' : State η} {entry : Entry}
    (h : entry ∈ call.request.enters s s') (hc : entry.counts (.workflow id)) :
    call.executes id := by
  have hsubject := subject?_of_counts h hc
  unfold executes
  cases hr : call.request with
  | executeWorkflow key context | runWorkflow key context =>
    rw [hr] at hsubject
    exact decide_eq_true (Subject.workflow.inj (Option.some.inj hsubject))
  | setVariable key name value =>
    rw [hr] at h
    obtain rfl := List.mem_singleton.mp h
    cases hc
  | updateWorkflow key patch =>
    rw [hr] at h
    obtain ⟨vars, -, rfl⟩ := Option.map_eq_some_iff.mp (Option.mem_toList.mp h)
    cases hc
  | runScript => rw [hr] at hsubject; cases hsubject
  | runRule => rw [hr] at hsubject; cases hsubject
  | _ => rw [hr] at hsubject; cases hsubject

theorem countP_entries_of_not_executes (h : call.executes id = false) :
    call.entries.countP (Entry.counts (.workflow id)) = 0 := by
  refine List.countP_eq_zero.mpr fun entry hentry hc => ?_
  obtain ⟨step, -, hmem⟩ := List.mem_flatMap.mp hentry
  rw [executes_of_counts hmem hc] at h
  cases h

/-- An execution that has ended has finished, has counted once and has entered one run; or it has
done none of that. -/
theorem went_of_ended (h : Path (call.request.run engine) call.steps call.rest)
    (hexecutes : call.executes id) (hended : call.rest.outcome?.isSome)
    (hseen : ∀ step ∈ call.steps, (step.1.tally? (.workflow id)).isSome) :
    Went id call ∧
      call.entries.countP (Entry.counts (.workflow id)) = if call.finished then 1 else 0 := by
  obtain ⟨context, lost, hrequest⟩ := request_of_executes hexecutes
  obtain ⟨outcome, ho⟩ := Option.isSome_iff_exists.mp hended
  have hends := h.ends (ends_of_outcome? ho)
  rw [List.append_nil] at hends
  obtain ⟨answer, hp, hfinished, hlost⟩ := ends_executes hrequest hends
  have hanswer := executeWorkflow_answers hp
  have hentries := hrequest.entries_eq call.steps
  have hdone := finished_of_outcome? ho
  rw [entries, hentries]
  obtain ⟨request, steps, rest⟩ := call
  dsimp only at hrequest ho hanswer hseen ⊢
  cases hanswer with
  | @missing s hrow =>
    have hsome := hseen (s, s) List.mem_cons_self
    rw [State.tally?, hrow] at hsome
    cases hsome
  | @ran s u w started result now begun run ended last hrow hrun hbefore hroom hlast =>
    obtain ⟨tally, htally⟩ := Option.isSome_iff_exists.mp
      (hseen (u, countWorkflow id now result.2 u) (by simp))
    have hfirst := List.forall_mem_cons.mpr ⟨(fun _ => rfl : Untouched (s, s)), hbefore⟩
    have hcounted := flatMap_counted (counted_countWorkflow now hroom result.2 htally) hfirst hlast
    have honce := @countsOnce_of_count _ id _ _ u now result.2 tally htally hroom hfirst hlast
    simp only [List.cons_append, List.append_assoc] at hcounted honce
    obtain rfl := hfinished _ rfl
    refine ⟨.counted hdone honce, ?_⟩
    rw [hcounted, hdone]
    simp [Entry.counts, Except.toOption]
  | @uncounted s u w run hrow hrun hfull =>
    have hnone : ∀ step ∈ (s, s) :: (run ++ [(u, u)]), Untouched step := by
      simp only [List.forall_mem_cons, List.forall_mem_append]
      exact ⟨fun _ => rfl, hrun, fun _ => rfl, List.forall_mem_nil _⟩
    obtain rfl := hlost rfl
    rw [hrequest.lost_ne] at hdone
    refine ⟨.lost hrequest ho ⟨(u, u), by simp, hfull⟩ fun step hstep =>
      (hnone step hstep).keepsCount id, ?_⟩
    rw [hdone, List.flatMap_eq_nil_iff.mpr fun step hstep => counted_of_eq _ (hnone step hstep _)]
    rfl

end BookedCall

/-- The runs of a workflow that are entered are those of the executions that have finished. -/
theorem Books.Reaches.entered_eq {engine : Engine η} {s : State η} {t : Books η} {id : Uuid}
    (h : Books.Reaches engine s t) (htells : t.Tells s (.workflow id))
    (hended : ∀ call ∈ t.calls, call.executes id → call.rest.outcome?.isSome) :
    t.journal.countP (Entry.counts (.workflow id)) =
      (t.calls.filter (BookedCall.executes id)).countP BookedCall.finished := by
  rw [h.orderly.journal.countP_eq, List.countP_filter]
  refine countP_flatMap_of fun call hcall => ?_
  cases hexecutes : call.executes id with
  | false =>
    rw [BookedCall.countP_entries_of_not_executes hexecutes, Bool.and_false]
    rfl
  | true =>
    rw [Bool.and_true]
    exact (BookedCall.went_of_ended (h.orderly.calls call hcall).2 hexecutes
      (hended call hcall hexecutes) fun step hstep => (htells.seen call hcall step hstep).1).2

/-- An imported workflow is stored with the count that the text has. -/
theorem stored_of_import {text : String} {w : Workflow} {s₀ s : State η} {pauses : List Duration}
    (h : (importWorkflow text).runAlone s₀ = ⟨.ok (some w), s, pauses⟩) :
    ∃ v, importable? text = some v ∧ w.runCount = v.runCount ∧
      s.tally? (.workflow w.id) = some ⟨w.runCount, w.vars⟩ := by
  cases htext : importable? text with
  | none =>
    rw [importWorkflow, htext] at h
    cases h
  | some v =>
    have hrow := Table.get?_rows_insert workflowFormat (s₀.imported v).id (s₀.imported v).id
      (s₀.imported v) s₀.workflows s₀.storage
    rw [runAlone_importWorkflow htext] at h
    generalize Table.insert workflowFormat (s₀.imported v).id (s₀.imported v)
      (s₀.workflows, s₀.storage) = result at h hrow
    obtain ⟨saved, table, storage⟩ := result
    cases saved with
    | error cause => cases h
    | ok stored =>
      cases h
      refine ⟨v, rfl, rfl, ?_⟩
      rw [State.tally?]
      rw [if_pos rfl] at hrow
      exact congrArg (Option.map fun w : Workflow => (⟨w.runCount, w.vars⟩ : Tally)) hrow

/-- There is a text for every count. -/
theorem exists_importable_runCount (count : UInt64) :
    ∃ text v, importable? text = some v ∧ v.runCount = count := by
  let v : Workflow :=
    { Workflow.create ⟨1⟩ ⟨0, 0⟩ "odometer" .manual with runCount := count }
  have hreads : v.ReadsBack :=
    ⟨fun _ h => (by cases h), fun _ h => (by cases h),
      show Instant.ReadsBack ⟨0, 0⟩ by decide +kernel, fun _ h => (by cases h)⟩
  have hdepth : v.toJson.depth = 2 := rfl
  exact ⟨v.toJson.pretty, v, importable?_pretty rfl hreads (by rw [hdepth]; decide), rfl⟩

/-- The count of runs of an imported workflow, whatever is asked of the engine afterwards, however
the calls take turns and whatever events and schedules set off, as long as the workflow is not
deleted, and when none of its executions is in progress. It started as the text has it, and is
larger by the number of the executions that have finished. Each of these has made it one larger, and
the others have found it at its largest value; so all executions have finished, each making it one
larger, if and only if there was room for all of them. -/
theorem runCount_climbs_iff {engine : Engine η} {text : String} {w : Workflow} {s₀ s : State η}
    {pauses : List Duration} {t : Books η}
    (himport : (importWorkflow text).runAlone s₀ = ⟨.ok (some w), s, pauses⟩)
    (h : Books.Reaches engine s t)
    (hkept : ∀ call ∈ t.calls, call.request.deletes ≠ some (.workflow w.id))
    (hended : ∀ call ∈ t.calls, call.executes w.id → call.rest.outcome?.isSome) :
    let executions := t.calls.filter (BookedCall.executes w.id)
    (∃ v, importable? text = some v ∧ w.runCount = v.runCount) ∧
      (∃ count, t.state.runCount? w.id = some count ∧
        count.toNat = w.runCount.toNat + executions.countP BookedCall.finished) ∧
      (∀ call ∈ executions, Went w.id call) ∧
      ((∀ call ∈ executions, call.finished ∧ CountsOnce w.id call.steps) ↔
        w.runCount.toNat + executions.length < 2 ^ 64) := by
  intro executions
  obtain ⟨v, hv, hcount, hsome⟩ := stored_of_import himport
  have htells := h.tells hsome hkept
  obtain ⟨htally, hruns⟩ := htells.told _ hsome
  rw [h.entered_eq htells hended] at hruns
  have hwent : ∀ call ∈ executions, Went w.id call := by
    intro call hcall
    obtain ⟨hmem, hexecutes⟩ := List.mem_filter.mp hcall
    exact (BookedCall.went_of_ended (h.orderly.calls call hmem).2 hexecutes
      (hended call hmem hexecutes) fun step hstep => (htells.seen call hmem step hstep).1).1
  refine ⟨⟨v, hv, hcount⟩, ⟨_, ?_, hruns⟩, hwent, ?_, ?_⟩
  · rw [State.runCount?, State.runs?_eq, htally]
    rfl
  · intro hall
    have hlength : executions.countP BookedCall.finished = executions.length :=
      List.countP_eq_length.mpr fun call hcall => (hall call hcall).1
    rw [← hlength, ← hruns]
    exact UInt64.toNat_lt _
  · intro hroom call hcall
    cases hwent call hcall with
    | counted hf hc => exact ⟨hf, hc⟩
    | lost hr ho hfull hkeep =>
      -- the counter is still full, and one execution is missing from it
      obtain ⟨step, hstep, hfull⟩ := hfull
      have hseen := (htells.seen call (List.mem_filter.mp hcall).1 step hstep).2
      have hnow := State.full_iff.mp (State.Full.mono hfull hseen)
      rw [State.runs_of_tally htally, hruns] at hnow
      have hunfinished : executions.countP BookedCall.finished ≠ executions.length := by
        intro hlength
        have hf := List.countP_eq_length.mp hlength call hcall
        rw [BookedCall.finished_of_outcome? ho, hr.lost_ne] at hf
        cases hf
      have hle := executions.countP_le_length (p := BookedCall.finished)
      change w.runCount.toNat + executions.countP BookedCall.finished = 2 ^ 64 - 1 at hnow
      omega

namespace Odometer

def engine : Engine Unit :=
  ⟨Registry.empty, ⟨Dict.empty, .stored, .standard⟩, Catalog.builtin, 0,
    taskCrashed⟩

/-- A workflow of which one more run can be counted. -/
def text : String :=
  "\x7b\"id\": \"22222222-2222-4222-8222-222222222222\", \"name\": \"odometer\", " ++
  "\"enabled\": true, \"trigger\": \x7b\"kind\": \"manual\"\x7d, " ++
  "\"createdAt\": \"2024-01-02T03:04:05Z\", \"runCount\": 18446744073709551614\x7d"

def state : State Unit :=
  State.start ⟨(), 0, ⟨fun n => ⟨BitVec.ofNat 128 n⟩, 0⟩, ⟨fun n => ⟨n, 0⟩, 0⟩, ⟨fun n => n, 0⟩,
    ⟨fun n => n, 0⟩⟩

/-- The workflow is imported and executed twice. -/
def driven : Books Unit :=
  Books.afterTurns (((Books.start ((importWorkflow text).runAlone state).state).afterCall engine
    (.executeWorkflow ⟨0⟩ Dict.empty)).afterCall engine (.executeWorkflow ⟨0⟩ Dict.empty)) 0 6
    |>.afterTurns 1 6

theorem reaches_driven :
    Books.Reaches engine ((importWorkflow text).runAlone state).state driven :=
  (((Books.Reaches.call .refl rfl).call rfl).turns 0 6).turns 1 6

/-- The first execution finishes and counts; the second finds the counter full and stays active. -/
theorem runCount_climbs_iff_odometer :
    let executions := driven.calls.filter (BookedCall.executes ⟨0⟩)
    (importable? text).map Workflow.runCount = some 18446744073709551614 ∧
      executions.map BookedCall.finished = [true, false] ∧
      driven.state.executions.active.values.length = 1 ∧
      (∃ count, driven.state.runCount? ⟨0⟩ = some count ∧ count.toNat = 18446744073709551615) ∧
      (∀ call ∈ executions, Went ⟨0⟩ call) ∧
      ¬ ∀ call ∈ executions, call.finished ∧ CountsOnce ⟨0⟩ call.steps := by
  intro executions
  have hcount : (importable? text).map Workflow.runCount = some 18446744073709551614 := by
    decide +kernel
  have hfinished : executions.map BookedCall.finished = [true, false] := by decide +kernel
  obtain ⟨v, hv, hruns⟩ := Option.map_eq_some_iff.mp hcount
  have himport : (importWorkflow text).runAlone state =
      ⟨.ok (some (state.imported v)), ((importWorkflow text).runAlone state).state, []⟩ := by
    rw [runAlone_importWorkflow hv]
    rfl
  have hkept : ∀ call ∈ driven.calls, call.request.deletes ≠ some (.workflow ⟨0⟩) := by
    decide +kernel
  have hended : ∀ call ∈ driven.calls, call.executes ⟨0⟩ → call.rest.outcome?.isSome := by
    decide +kernel
  have hactive : driven.state.executions.active.values.length = 1 := by decide +kernel
  obtain ⟨-, ⟨count, hstored, hsum⟩, hwent, hclimb⟩ :=
    runCount_climbs_iff himport reaches_driven hkept hended
  change driven.state.runCount? ⟨0⟩ = some count at hstored
  change count.toNat = v.runCount.toNat + executions.countP BookedCall.finished at hsum
  have hone : executions.countP BookedCall.finished = 1 := by
    have hmap := @List.countP_map _ _ id BookedCall.finished executions
    rw [hfinished] at hmap
    exact hmap.symm
  have hlength : executions.length = 2 := by
    rw [← List.length_map BookedCall.finished, hfinished]
    rfl
  refine ⟨hcount, hfinished, hactive, ⟨count, hstored, ?_⟩, hwent, fun hall => ?_⟩
  · rw [hsum, hruns, hone]
    rfl
  · have hroom : v.runCount.toNat + executions.length < 2 ^ 64 := hclimb.mp hall
    rw [hruns, hlength] at hroom
    exact absurd hroom (by decide)

end Odometer

end Automation.Engine
