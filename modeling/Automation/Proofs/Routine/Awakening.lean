import Automation.Proofs.Routine.Timeline
import Mathlib.Data.ENat.Lattice

/-!
# How often a timeline wakes somebody

A sleeper is woken once for the pause it is in and once for each pause that is left to it. So a
timeline wakes nobody more often than its routines can pause, and with so much fuel it goes on until
all of them have ended.
-/
namespace Automation

variable {σ α β : Type}

namespace Routine

/-- How often the routine pauses at most, whatever others do to the state. -/
noncomputable def naps : Routine σ α → ℕ∞
  | done _ => 0
  | crash _ => 0
  | commit _ next => ⨆ s, (next s).naps
  | pause _ next => next.naps + 1

/-- A sequence pauses no more often than its first part if the second does not pause. -/
theorem naps_bind {p : Routine σ α} {f : α → Routine σ β} (h : ∀ a, (f a).naps = 0) :
    (p >>= f).naps = p.naps := by
  change (p.bind f).naps = p.naps
  induction p with
  | done a => exact h a
  | crash message => rfl
  | commit update next ih => exact iSup_congr ih
  | pause length next ih => exact congrArg (· + 1) ih

/-- A routine that waits has used up one of its pauses. -/
theorem naps_of_waiting {p rest : Routine σ α} {s s' : σ} {length : Duration}
    (h : p.advance s = (.waiting length rest, s')) : rest.naps + 1 ≤ p.naps := by
  induction p generalizing s with
  | done a => cases h
  | crash message => cases h
  | commit update next ih =>
    rw [naps]
    exact (ih s h).trans (le_iSup (fun s => (next s).naps) s)
  | pause length next ih =>
    rw [advance] at h
    split at h
    · exact (ih h).trans le_self_add
    · cases h
      exact le_refl _

end Routine

open Routine

/-- How often the sleeper is woken at most. -/
noncomputable def Sleeper.calls (sleeper : Sleeper σ α) : ℕ∞ := sleeper.rest.naps + 1

namespace Timeline

/-- How often the timeline wakes somebody at most. -/
noncomputable def calls (t : Timeline σ α) : ℕ∞ := (t.sleepers.map Sleeper.calls).sum

variable {t t' : Timeline σ α} {s s' : σ} {job count fuel : Nat}

theorem calls_run (t : Timeline σ α) (s : σ) (job part : Nat) (p : Routine σ α) :
    (t.run s job part p).1.calls ≤ t.calls + p.naps := by
  unfold run
  cases h : p.advance s with
  | mk standing s' =>
    cases standing with
    | finished a => exact le_self_add
    | crashed message => exact le_self_add
    | waiting length rest =>
      simp only [calls, List.map_append, List.sum_append, List.map_singleton, List.sum_singleton]
      exact add_le_add_right (naps_of_waiting h) _

theorem calls_launch (t : Timeline σ α) (s : σ) (job part : Nat)
    (routines : List (Routine σ α)) :
    (t.launch s job part routines).1.calls ≤ t.calls + (routines.map naps).sum := by
  induction routines generalizing t s part with
  | nil => exact le_self_add
  | cons p rest ih =>
    rw [List.map_cons, List.sum_cons, ← add_assoc]
    exact (ih _ _ _).trans (add_le_add_left (calls_run t s job part p) _)

/-- Waking somebody is one of the times. -/
theorem calls_wake {latest : Option Nat} (h : t.wake? s latest = some (t', s')) :
    t'.calls + 1 ≤ t.calls := by
  unfold wake? at h
  cases hnext : next? t.sleepers with
  | none =>
    rw [hnext] at h
    cases h
  | some found =>
    obtain ⟨first, others⟩ := found
    rw [hnext] at h
    dsimp only at h
    split at h
    · cases h
    · obtain rfl := congrArg Prod.fst (Option.some.inj h)
      have hsum : t.calls = (others.map Sleeper.calls).sum + first.rest.naps + 1 := by
        rw [calls, ((next?_eq_some hnext).1.map Sleeper.calls).sum_eq, List.map_cons, List.sum_cons,
          Sleeper.calls, add_comm, add_assoc]
      rw [hsum]
      exact add_le_add_left (calls_run _ s first.job first.part first.rest) 1

theorem await_of_asleep (h : t.sleepers = []) : t.await job count fuel s = (t, s) := by
  cases fuel with
  | zero => rfl
  | succ fuel =>
    have hwake : t.wake? s none = none := by rw [wake?, h, next?]
    rw [await, hwake]
    exact ite_self _

/-- More fuel than there are awakenings makes no difference. -/
theorem await_of_calls (h : t.calls ≤ fuel) {more : Nat} (hmore : fuel ≤ more) :
    t.await job count more s = t.await job count fuel s := by
  induction fuel generalizing t s more with
  | zero =>
    have hnobody : t.sleepers = [] := by
      by_contra hsome
      obtain ⟨sleeper, rest, he⟩ := List.exists_cons_of_ne_nil hsome
      rw [calls, he, List.map_cons, List.sum_cons, Sleeper.calls] at h
      simp at h
    rw [await_of_asleep hnobody, await_of_asleep hnobody]
  | succ fuel ih =>
    -- both go on by the same awakening, and there is one less to come
    obtain ⟨more, rfl⟩ := Nat.exists_eq_add_of_le' (Nat.lt_of_lt_of_le (Nat.succ_pos fuel) hmore)
    rw [await, await]
    split
    · rfl
    · cases hwake : t.wake? s none with
      | none => rfl
      | some woken =>
        obtain ⟨t', s'⟩ := woken
        have hleft : t'.calls ≤ fuel := by
          have hcalls := (calls_wake hwake).trans h
          rw [Nat.cast_succ] at hcalls
          exact (ENat.add_le_add_iff_right ENat.one_ne_top).mp hcalls
        exact ih hleft (Nat.le_of_succ_le_succ hmore)

/-- A timeline of routines that do not pause more often than its fuel allows is one way to take
turns until all is over. -/
theorem exists_playOut_of_naps (may : σ → σ → Prop) (s : σ) {routines : List (Routine σ α)}
    (h : (routines.map naps).sum ≤ fuel) :
    ∃ w, Weave.Reaches may (Weave.start 0 s routines) w ∧ w.Over ∧
      w.now = (playOut fuel s routines).1.now ∧ w.state = (playOut fuel s routines).2 ∧
      (((playOut fuel s routines).1.endings 0).map Ended.outcome).Perm w.outcomes := by
  obtain ⟨enough, hall⟩ := exists_playOut may s routines
  have hcalls : (start.launch s 0 0 routines).1.calls ≤ fuel := by
    refine (calls_launch start s 0 0 routines).trans ?_
    rw [calls, start, List.map_nil, List.sum_nil, zero_add]
    exact h
  have hplay : playOut (max enough fuel) s routines = playOut fuel s routines :=
    await_of_calls hcalls (Nat.le_max_right enough fuel)
  rw [← hplay]
  exact hall _ (Nat.le_max_left enough fuel)

end Timeline
end Automation
