import Automation.Proofs.Routine.Weave

/-!
# Invariants of routines

A routine maintains an invariant if every commit that it comes to from states in which the invariant
holds leaves such a state. It may decide by what it has read, so not all of its commits need do
that, but only those that it comes to. Routines that maintain an invariant do so one after another
and side by side.
-/
namespace Automation

open Routine Weave

variable {σ α β : Type}

/-- Every commit that the routine comes to leaves the invariant as it finds it. -/
inductive Maintains (inv : σ → Prop) : Routine σ α → Prop where
  | done (a : α) : Maintains inv (.done a)
  | crash (message : String) : Maintains inv (.crash message)
  | commit {update : σ → σ} {next : σ → Routine σ α}
      (hk : ∀ s, inv s → inv (update s)) (hn : ∀ s, inv s → Maintains inv (next s)) :
      Maintains inv (.commit update next)
  | pause {length : Duration} {next : Routine σ α} (h : Maintains inv next) :
      Maintains inv (.pause length next)

namespace Maintains

variable {inv : σ → Prop}

/-- All commits do. -/
theorem of_commits {p : Routine σ α} (h : Commits (Spares inv) p) : Maintains inv p := by
  induction h with
  | done a => exact .done a
  | crash message => exact .crash message
  | commit hk hn ih => exact .commit hk fun s _ => ih s
  | pause h ih => exact .pause ih

theorem bind {p : Routine σ α} {f : α → Routine σ β} (h : Maintains inv p)
    (hf : ∀ a, Maintains inv (f a)) : Maintains inv (p >>= f) := by
  change Maintains inv (p.bind f)
  induction h with
  | done a => exact hf a
  | crash message => exact .crash message
  | commit hk hn ih => exact .commit hk ih
  | pause h ih => exact .pause ih

/-- A routine that has the state to itself leaves it as it found it. -/
theorem runAlone {p : Routine σ α} (h : Maintains inv p) {s : σ} (hs : inv s) :
    inv (p.runAlone s).state := by
  induction h generalizing s with
  | done a => exact hs
  | crash message => exact hs
  | commit hk hn ih => exact ih s hs (hk s hs)
  | pause h ih => exact ih hs

/-- The next step of a routine. -/
theorem act {p : Routine σ α} (h : Maintains inv p) {s : σ} (hs : inv s) (now : Nat) :
    inv (Strand.act now s p).2 ∧ ∀ due rest, (Strand.act now s p).1 = .underway due rest →
      Maintains inv rest := by
  cases h with
  | done a => exact ⟨hs, nofun⟩
  | crash message => exact ⟨hs, nofun⟩
  | commit hk hn =>
    refine ⟨hk s hs, fun due rest he => ?_⟩
    cases he
    exact hn s hs
  | pause h =>
    refine ⟨hs, fun due rest he => ?_⟩
    cases he
    exact h

end Maintains

namespace Weave

variable {inv : σ → Prop} {may : σ → σ → Prop} {w : Weave σ α}

/-- What all routines and everyone else maintain holds whoever takes turns. -/
theorem Reaches.maintains {first : Weave σ α} (h : Reaches may first w)
    (hm : ∀ s s', may s s' → inv s → inv s') (hs : inv first.state)
    (hp : ∀ due rest, Strand.underway due rest ∈ first.strands → Maintains inv rest) :
    inv w.state ∧ ∀ due rest, Strand.underway due rest ∈ w.strands → Maintains inv rest := by
  induction h with
  | refl => exact ⟨hs, hp⟩
  | @others w s h ho ih => exact ⟨hm w.state s ho ih.1, ih.2⟩
  | step h hstep ih =>
    cases hstep with
    | @turn i due rest hi hw =>
      obtain ⟨hinv, hall⟩ := ih
      have hact := (hall due rest (List.mem_of_getElem? hi)).act hinv
      refine ⟨(hact _).1, fun other later hmem => ?_⟩
      rcases List.mem_or_eq_of_mem_set hmem with hmem | he
      · exact hall other later hmem
      · exact (hact _).2 other later he.symm

theorem Reaches.maintains_start {now : Nat} {s : σ} {routines : List (Routine σ α)}
    (h : Reaches may (start now s routines) w) (hm : ∀ s s', may s s' → inv s → inv s')
    (hs : inv s) (hp : ∀ p ∈ routines, Maintains inv p) : inv w.state := by
  refine (h.maintains hm hs fun due rest hmem => ?_).1
  obtain ⟨_, hroutine, he⟩ := List.mem_map.mp hmem
  cases he
  exact hp rest hroutine

end Weave
end Automation
