import Automation.Proofs.Workflow.Visits

/-!
# Retries

A behaviour that is called again and again gives one outcome after another, each call finding what
the one before it has left. Retrying makes the calls up to the first whose outcome is not a failure
that may pass, or up to the last that is allowed, and pauses once between two of them. What the
calls do on the way, their own pauses included, is theirs and stays in its place.
-/
namespace Automation

namespace Routine

variable {σ α : Type}

/-- How call after call ends, counted from zero. -/
def calls (p : Routine σ α) (s : σ) : Nat → Ending σ α
  | 0 => p.runAlone s
  | n + 1 => p.runAlone (p.calls s n).state

/-- The calls after the first are those from what the first has left. -/
theorem calls_succ (p : Routine σ α) (s : σ) (n : Nat) :
    p.calls s (n + 1) = p.calls (p.runAlone s).state n := by
  induction n with
  | zero => rfl
  | succ n ih =>
    rw [calls, ih]
    rfl

/-- The routine with a count of its calls beside the state. -/
def counted (p : Routine σ α) : Routine (σ × Nat) α := do
  Routine.modify fun s => (s.1, s.2 + 1)
  p.within Prod.fst fun s left => (left, s.2)

theorem runAlone_counted (p : Routine σ α) (s : σ) (count : Nat) :
    p.counted.runAlone (s, count) =
      ⟨(p.runAlone s).outcome, ((p.runAlone s).state, count + 1), (p.runAlone s).pauses⟩ := by
  have hpart : IsPart Prod.fst fun (s : σ × Nat) left => (left, s.2) :=
    ⟨fun _ _ => rfl, fun _ => rfl, fun _ _ _ => rfl⟩
  exact runAlone_within hpart p (s, count + 1)

theorem calls_counted (p : Routine σ α) (s : σ) (n : Nat) :
    p.counted.calls (s, 0) n =
      ⟨(p.calls s n).outcome, ((p.calls s n).state, n + 1), (p.calls s n).pauses⟩ := by
  induction n with
  | zero => exact runAlone_counted p s 0
  | succ n ih =>
    rw [calls, ih]
    exact runAlone_counted p (p.calls s n).state (n + 1)

end Routine

namespace Workflow

open Routine

variable {σ : Type}

/-- A failure after which another call may help. -/
def MayPass (outcome : Except String (Except NodeError Json)) : Prop :=
  ∃ message, outcome = .ok (.error (.retryable message))

/-- With so many retries allowed, the call of this number decides: each before it failed with a
failure that may pass, and it either did not or had no retry left. -/
structure Decides (outcomes : Nat → Except String (Except NodeError Json)) (allowed n : Nat) :
    Prop where
  le : n ≤ allowed
  before : ∀ i < n, MayPass (outcomes i)
  last : ¬ MayPass (outcomes n) ∨ n = allowed

namespace Decides

variable {outcomes : Nat → Except String (Except NodeError Json)} {allowed n : Nat}

theorem first (h : ¬ MayPass (outcomes 0) ∨ 0 = allowed) : Decides outcomes allowed 0 :=
  ⟨Nat.zero_le _, nofun, h⟩

theorem succ (h : MayPass (outcomes 0)) (later : Decides (fun i => outcomes (i + 1)) allowed n) :
    Decides outcomes (allowed + 1) (n + 1) := by
  refine ⟨Nat.succ_le_succ later.le, fun i hi => ?_, later.last.imp_right (congrArg (· + 1))⟩
  cases i with
  | zero => exact h
  | succ i => exact later.before i (Nat.lt_of_succ_lt_succ hi)

end Decides

/-- The pauses of the calls up to one of them, with the pause before each retry in between. -/
def pausesThrough (policy : RetryPolicy) (failures : Nat)
    (calls : Nat → Ending σ (Except NodeError Json)) (retries : Nat) : List Duration :=
  ((List.range retries).flatMap fun n => (calls n).pauses ++ [policy.delay (failures + n + 1)]) ++
    (calls retries).pauses

theorem pausesThrough_succ (policy : RetryPolicy) (failures : Nat)
    (calls : Nat → Ending σ (Except NodeError Json)) (retries : Nat) :
    pausesThrough policy failures calls (retries + 1) =
      (calls 0).pauses ++ policy.delay (failures + 1) ::
        pausesThrough policy (failures + 1) (fun n => calls (n + 1)) retries := by
  have hshift : ∀ n, failures + (n + 1) + 1 = failures + 1 + n + 1 := fun n => by omega
  simp [pausesThrough, List.range_succ_eq_map, List.flatMap_map, hshift]

section Retrying

variable (policy : RetryPolicy) (nodeId : String) {attempt : Routine σ (Except NodeError Json)}
  {s : σ}

/-- A call that is the last ends the retrying as it ends itself. -/
theorem runAlone_retrying_of_last {left : Nat} (failures : Nat)
    (h : ¬ MayPass (attempt.runAlone s).outcome ∨ 0 = left) :
    (retrying policy nodeId attempt left failures).runAlone s =
      ⟨(attempt.runAlone s).outcome.map (judged nodeId), (attempt.runAlone s).state,
        (attempt.runAlone s).pauses⟩ := by
  rw [retrying.eq_def, runAlone_bind]
  generalize attempt.runAlone s = ending at h ⊢
  obtain ⟨outcome, state, pauses⟩ := ending
  cases outcome with
  | error message => rfl
  | ok answer =>
    cases answer with
    | ok output => simp [Except.map, judged]
    | error e =>
      cases e with
      | fatal message => simp [Except.map, judged]
      | retryable message =>
        obtain rfl : 0 = left := h.resolve_left fun hn => hn ⟨message, rfl⟩
        simp [Except.map, judged]

/-- After a failure that may pass there is a pause, and what comes of the other calls comes of the
whole. -/
theorem runAlone_retrying_of_mayPass (left failures : Nat)
    (h : MayPass (attempt.runAlone s).outcome) :
    (retrying policy nodeId attempt (left + 1) failures).runAlone s =
      let later := (retrying policy nodeId attempt left (failures + 1)).runAlone
        (attempt.runAlone s).state
      ⟨later.outcome, later.state,
        (attempt.runAlone s).pauses ++ policy.delay (failures + 1) :: later.pauses⟩ := by
  obtain ⟨message, h⟩ := h
  rw [retrying.eq_def, runAlone_bind]
  generalize attempt.runAlone s = ending at h ⊢
  obtain ⟨outcome, state, pauses⟩ := ending
  obtain rfl : outcome = _ := h
  simp [runAlone_bind]

variable (attempt s) in
/-- Retrying ends as the call that decides. -/
theorem runAlone_retrying (left failures : Nat) :
    ∃ retries, Decides (fun n => (attempt.calls s n).outcome) left retries ∧
      (retrying policy nodeId attempt left failures).runAlone s =
        ⟨(attempt.calls s retries).outcome.map (judged nodeId), (attempt.calls s retries).state,
          pausesThrough policy failures (attempt.calls s) retries⟩ := by
  induction left generalizing failures s with
  | zero => exact ⟨0, .first (Or.inr rfl), runAlone_retrying_of_last policy nodeId _ (Or.inr rfl)⟩
  | succ left ih =>
    by_cases h : MayPass (attempt.runAlone s).outcome
    · obtain ⟨retries, hdecides, hlater⟩ := ih (attempt.runAlone s).state (failures + 1)
      -- the calls of the induction hypothesis are those after the first
      have hcalls : attempt.calls (attempt.runAlone s).state = fun n => attempt.calls s (n + 1) :=
        funext fun n => (calls_succ attempt s n).symm
      rw [hcalls] at hdecides hlater
      refine ⟨retries + 1, hdecides.succ h, ?_⟩
      rw [runAlone_retrying_of_mayPass policy nodeId left failures h, hlater, pausesThrough_succ]
      rfl
    · exact ⟨0, .first (Or.inl h), runAlone_retrying_of_last policy nodeId _ (Or.inl h)⟩

/-- How often a node is called, what comes of it, and how long the pauses are. Take any behaviour
from any state on, and the outcomes that call after call would have. One call decides: the first
whose outcome is not a failure that may pass, or the last that is allowed if there is none before
it. The calls up to that one are made and no others, and its answer is the answer of the whole, a
failure that may pass now being one of exhausted retries; a crash stays a crash. Between two calls
there is one pause of the retrying, and these pauses are those of the policy in their order. -/
theorem retries_counted (policy : RetryPolicy) (nodeId : String)
    (attempt : Routine σ (Except NodeError Json)) (s : σ) :
    ∃ retries, Decides (fun n => (attempt.calls s n).outcome) policy.maxRetries retries ∧
      (retrying policy nodeId attempt.counted policy.maxRetries 0).runAlone (s, 0) =
        ⟨(attempt.calls s retries).outcome.map (judged nodeId),
          ((attempt.calls s retries).state, retries + 1),
          ((List.range retries).flatMap fun n =>
            (attempt.calls s n).pauses ++ [policy.delay (n + 1)]) ++
              (attempt.calls s retries).pauses⟩ := by
  obtain ⟨retries, hdecides, hends⟩ :=
    runAlone_retrying policy nodeId attempt.counted (s, 0) policy.maxRetries 0
  simp only [calls_counted, pausesThrough, Nat.zero_add] at hdecides hends
  exact ⟨retries, hdecides, hends⟩

end Retrying

/-- A device that is busy twice is asked a third time, with a longer pause the second time. -/
example :
    let ask : Routine Nat (Except NodeError Json) := Routine.atomically fun calls =>
      let answer := if calls < 2 then .error (.retryable "device busy") else .ok (.string "recovered")
      (answer, calls + 1)
    let ending := (retrying ⟨5, Duration.ofMillis 100⟩ "a" ask 5 0).runAlone 0
    ending.state = 3 ∧ ending.pauses = [Duration.ofMillis 100, Duration.ofMillis 200] := by
  decide +kernel

end Workflow
end Automation
