import Automation.Workflow.Run
import Mathlib

/-!
# Pauses between tries

The pause before a retry is the base doubled for every retry after the first, and stays at the
longest pause once it is that long. It is worked out with a factor of 32 bits and a product in the
range of durations. Where the product leaves its range it is longer than the longest pause, so
nothing is lost; where the factor does, it depends on the base. Said here is when the pause is the
one that exact arithmetic gives.
-/
namespace Automation

theorem Duration.nanos_min (a b : Duration) : (a.min b).nanos = Nat.min a.nanos b.nanos := by
  unfold Duration.min
  split
  · next h => exact (Nat.min_eq_left h).symm
  · next h => exact (Nat.min_eq_right (Nat.le_of_not_le h)).symm

namespace Workflow.RetryPolicy

variable (policy : RetryPolicy)

/-- The base doubled for every retry after the first, however long that is. -/
def doubled (attempt : Nat) : Nat := policy.baseDelay.nanos * 2 ^ (attempt - 1)

theorem doubled_mono {attempt later : Nat} (h : attempt ≤ later) :
    policy.doubled attempt ≤ policy.doubled later :=
  Nat.mul_le_mul_left _ (Nat.pow_le_pow_right (by decide) (Nat.sub_le_sub_right h 1))

theorem doubled_succ {attempt : Nat} (h : 1 ≤ attempt) :
    policy.doubled (attempt + 1) = 2 * policy.doubled attempt := by
  obtain ⟨count, rfl⟩ := Nat.exists_eq_add_of_le' h
  simp only [doubled, Nat.add_sub_cancel, Nat.pow_succ]
  ac_rfl

/-- As long as the factor has 32 bits the pause is exact: a product that is no duration is more
than the longest pause. -/
theorem nanos_delay_of_le {attempt : Nat} (h : attempt ≤ 32) :
    (policy.delay attempt).nanos = min (policy.doubled attempt) maxDelay.nanos := by
  rw [delay, if_neg (Nat.not_lt.mpr h)]
  simp only [Duration.times?]
  split
  · next length hl =>
    split at hl
    · obtain rfl := Option.some.inj hl
      exact Duration.nanos_min _ _
    · cases hl
  · next hl =>
    split at hl
    · cases hl
    · next hlimit =>
      have hmax : maxDelay.nanos ≤ Duration.limit := by decide
      exact (Nat.min_eq_right (Nat.le_trans hmax (Nat.not_lt.mp hlimit))).symm

theorem delay_of_lt {attempt : Nat} (h : 32 < attempt) : policy.delay attempt = maxDelay := by
  rw [delay, if_pos h]

theorem nanos_delay_le (attempt : Nat) : (policy.delay attempt).nanos ≤ maxDelay.nanos := by
  rcases Nat.lt_or_ge 32 attempt with h | h
  · exact Nat.le_of_eq (congrArg Duration.nanos (policy.delay_of_lt h))
  · rw [policy.nanos_delay_of_le h]
    exact Nat.min_le_right _ _

theorem nanos_delay_mono {attempt later : Nat} (h : attempt ≤ later) :
    (policy.delay attempt).nanos ≤ (policy.delay later).nanos := by
  rcases Nat.lt_or_ge 32 later with hl | hl
  · rw [policy.delay_of_lt hl]
    exact policy.nanos_delay_le attempt
  · rw [policy.nanos_delay_of_le hl, policy.nanos_delay_of_le (Nat.le_trans h hl)]
    have hmono := policy.doubled_mono h
    omega

/-- The pause is exact for a retry if and only if its factor has 32 bits or the product has reached
the longest pause. -/
theorem nanos_delay_eq_iff (attempt : Nat) :
    (policy.delay attempt).nanos = min (policy.doubled attempt) maxDelay.nanos ↔
      attempt ≤ 32 ∨ maxDelay.nanos ≤ policy.doubled attempt := by
  rcases Nat.lt_or_ge 32 attempt with h | h
  · rw [policy.delay_of_lt h]
    omega
  · simp [policy.nanos_delay_of_le h, h]

/-- Fourteen nanoseconds are the least base that reaches the longest pause as soon as the factor
leaves its 32 bits. -/
theorem maxDelay_le_doubled_iff :
    maxDelay.nanos ≤ policy.doubled 33 ↔ 14 ≤ policy.baseDelay.nanos := by
  have hmax : maxDelay.nanos = 60000000000 := rfl
  have hfactor : (2 : Nat) ^ (33 - 1) = 4294967296 := rfl
  rw [doubled, hmax, hfactor]
  omega

/-- How far the pauses before retries are those that double up to the longest. The longest pause is
never exceeded, a later retry never waits for less, and up to the 32nd retry every pause is exact.
From the 33rd on the factor has more than 32 bits and the longest pause is taken whatever the base:
that is the exact one for a base of fourteen nanoseconds or more, but not for a shorter one, and a
base of zero, whose exact pauses are all zero, then waits for a minute. -/
theorem delay_doubles_iff :
    (∀ attempt, (policy.delay attempt).nanos ≤ maxDelay.nanos) ∧
      (∀ attempt later, attempt ≤ later →
        (policy.delay attempt).nanos ≤ (policy.delay later).nanos) ∧
      (∀ attempt, 1 ≤ attempt → attempt < 32 → (policy.delay (attempt + 1)).nanos =
        min (2 * (policy.delay attempt).nanos) maxDelay.nanos) ∧
      (∀ attempt, (policy.delay attempt).nanos = min (policy.doubled attempt) maxDelay.nanos ↔
        attempt ≤ 32 ∨ maxDelay.nanos ≤ policy.doubled attempt) ∧
      ((∀ attempt, (policy.delay attempt).nanos = min (policy.doubled attempt) maxDelay.nanos) ↔
        14 ≤ policy.baseDelay.nanos) := by
  refine ⟨policy.nanos_delay_le, fun _ _ => policy.nanos_delay_mono, ?_, policy.nanos_delay_eq_iff,
    ?_⟩
  · intro attempt hone hlt
    rw [policy.nanos_delay_of_le hlt, policy.nanos_delay_of_le (Nat.le_of_lt hlt),
      policy.doubled_succ hone]
    omega
  · constructor
    · intro h
      have hlast := (policy.nanos_delay_eq_iff 33).mp (h 33)
      exact policy.maxDelay_le_doubled_iff.mp (hlast.resolve_left (by decide))
    · intro h attempt
      rw [policy.nanos_delay_eq_iff]
      refine (Nat.lt_or_ge 32 attempt).symm.imp_right fun hlt => ?_
      exact Nat.le_trans (policy.maxDelay_le_doubled_iff.mpr h) (policy.doubled_mono hlt)

example : (⟨33, Duration.zero⟩ : RetryPolicy).delay 33 = Duration.ofSeconds 60 := by decide

end Workflow.RetryPolicy
end Automation
