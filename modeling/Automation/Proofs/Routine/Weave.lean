import Automation.Proofs.Routine.Course
import Mathlib.Data.Nat.Find
import Mathlib.Logic.Hydra

/-!
# Routines side by side

Several routines on one state take turns, a step at a time, on a clock that counts milliseconds.
Steps take no time, so the clock moves on only when all routines wait, and then to the first whose
pause is over. Which of those that need not wait goes first is left open, and so is what else is
done to the state. There are only finitely many turns, and every routine ends. Routines that leave
the state fit for each other end as courses from fit states say, each after the pauses of its own
course and no later.
-/
namespace Automation

variable {σ α : Type}

/-- One of several routines: it goes on at a time, or it has ended at one. -/
inductive Strand (σ α : Type) where
  | underway (due : Nat) (rest : Routine σ α)
  | ended (time : Nat) (outcome : Except String α)

/-- Routines on one state, with a clock. -/
structure Weave (σ α : Type) where
  now : Nat
  state : σ
  strands : List (Strand σ α)

namespace Strand

/-- The next step of a routine at a time, and what it makes of the state. -/
def act (now : Nat) (s : σ) : Routine σ α → Strand σ α × σ
  | .done a => (ended now (.ok a), s)
  | .crash message => (ended now (.error message), s)
  | .commit update next => (underway now (next s), update s)
  | .pause length next => (underway (now + length.fullMillis) next, s)

end Strand

namespace Weave

def start (now : Nat) (s : σ) (routines : List (Routine σ α)) : Weave σ α :=
  ⟨now, s, routines.map (Strand.underway now)⟩

/-- No routine goes on before the time. -/
def Waits (w : Weave σ α) (time : Nat) : Prop :=
  ∀ due rest, Strand.underway due rest ∈ w.strands → time ≤ due

/-- One of the routines that come first does a step. -/
inductive Step : Weave σ α → Weave σ α → Prop where
  | turn {w : Weave σ α} {i due : Nat} {rest : Routine σ α}
      (hi : w.strands[i]? = some (.underway due rest)) (hw : w.Waits due) :
      Step w ⟨max w.now due, (Strand.act (max w.now due) w.state rest).2,
        w.strands.set i (Strand.act (max w.now due) w.state rest).1⟩

/-- What can come of routines side by side while others change the state as they may. -/
inductive Reaches (may : σ → σ → Prop) (first : Weave σ α) : Weave σ α → Prop where
  | refl : Reaches may first first
  | step {w next : Weave σ α} (h : Reaches may first w) (hs : Step w next) : Reaches may first next
  | others {w : Weave σ α} {s : σ} (h : Reaches may first w) (hm : may w.state s) :
      Reaches may first { w with state := s }

/-- Every routine has ended. -/
def Over (w : Weave σ α) : Prop :=
  ∀ strand ∈ w.strands, ∃ time outcome, strand = .ended time outcome

/-- What the routines that have finished came to. -/
def results (w : Weave σ α) : List α := w.strands.filterMap fun
  | .ended _ (.ok a) => some a
  | _ => none

section Progress

theorem exists_first {w : Weave σ α} {due : Nat} {rest : Routine σ α}
    (h : Strand.underway due rest ∈ w.strands) :
    ∃ due rest, Strand.underway due rest ∈ w.strands ∧ w.Waits due := by
  classical
  have hex : ∃ due, ∃ rest, Strand.underway due rest ∈ w.strands := ⟨due, rest, h⟩
  obtain ⟨first, hfirst⟩ := Nat.find_spec hex
  exact ⟨Nat.find hex, first, hfirst, fun other later hmem => Nat.find_min' hex ⟨later, hmem⟩⟩

/-- Unless all is over there is a step to do. -/
theorem over_or_step (w : Weave σ α) : w.Over ∨ ∃ next, Step w next := by
  by_cases h : ∃ due rest, Strand.underway due rest ∈ w.strands
  · obtain ⟨_, _, h⟩ := h
    obtain ⟨due, rest, hmem, hw⟩ := exists_first h
    obtain ⟨i, hi⟩ := List.mem_iff_getElem?.mp hmem
    exact Or.inr ⟨_, .turn hi hw⟩
  · refine Or.inl fun strand hmem => ?_
    cases strand with
    | underway due rest => exact absurd ⟨due, rest, hmem⟩ h
    | ended time outcome => exact ⟨time, outcome, rfl⟩

/-- A strand is shorter than one of which it is what is left after a step. -/
inductive Shorter : Strand σ α → Strand σ α → Prop where
  | act (now : Nat) (s : σ) (due : Nat) (rest : Routine σ α) :
      Shorter (Strand.act now s rest).1 (.underway due rest)

theorem acc_ended (time : Nat) (outcome : Except String α) :
    Acc Shorter (Strand.ended time outcome : Strand σ α) := by
  constructor
  intro strand h
  cases h

theorem acc_underway (due : Nat) (rest : Routine σ α) :
    Acc Shorter (Strand.underway due rest) := by
  induction rest generalizing due with
  | done a =>
    constructor
    intro strand h
    cases h with
    | act now s => exact acc_ended now _
  | crash message =>
    constructor
    intro strand h
    cases h with
    | act now s => exact acc_ended now _
  | commit update next ih =>
    constructor
    intro strand h
    cases h with
    | act now s => exact ih s now
  | pause length next ih =>
    constructor
    intro strand h
    cases h with
    | act now s => exact ih _

theorem wellFounded_shorter : WellFounded (@Shorter σ α) := by
  constructor
  intro strand
  cases strand with
  | underway due rest => exact acc_underway due rest
  | ended time outcome => exact acc_ended time outcome

theorem perm_set {β : Type} {l : List β} {i : Nat} {old : β} (h : l[i]? = some old) (new : β) :
    (l.set i new ++ [old]).Perm (l ++ [new]) := by
  induction l generalizing i with
  | nil => cases h
  | cons a rest ih =>
    cases i with
    | zero =>
      obtain rfl := Option.some.inj h
      have hlast : ∀ b : β, (rest ++ [b]).Perm (b :: rest) := fun b =>
        List.perm_append_singleton b rest
      exact ((hlast a).cons new).trans ((List.Perm.swap a new rest).trans ((hlast new).symm.cons a))
    | succ i => exact (ih h).cons a

/-- A step leaves less to do. -/
theorem Step.cut {w next : Weave σ α} (h : Step w next) :
    Relation.CutExpand Shorter (next.strands : Multiset (Strand σ α)) w.strands := by
  cases h with
  | @turn i due rest hi hw =>
    refine ⟨{(Strand.act (max w.now due) w.state rest).1}, .underway due rest, ?_,
      Multiset.coe_eq_coe.mpr (perm_set hi _)⟩
    intro strand hmem
    rw [Multiset.mem_singleton] at hmem
    rw [hmem]
    exact .act _ _ due rest

/-- There is no end of steps. -/
theorem wellFounded_step : WellFounded fun next w : Weave σ α => Step w next := by
  have hcut : WellFounded (Relation.CutExpand (@Shorter σ α)) := wellFounded_shorter.cutExpand
  exact Subrelation.wf (fun h => h.cut)
    (InvImage.wf (fun w : Weave σ α => (w.strands : Multiset (Strand σ α))) hcut)

end Progress

/-- The whole milliseconds that pauses take. -/
def millis (pauses : List Duration) : Nat := (pauses.map Duration.fullMillis).foldr (· + ·) 0

theorem millis_append (pauses : List Duration) (length : Duration) :
    millis (pauses ++ [length]) = millis pauses + length.fullMillis := by
  simp only [millis]
  induction pauses with
  | nil => simp only [List.nil_append, List.map_cons, List.map_nil, List.foldr, Nat.add_comm]
  | cons pause rest ih =>
    rw [List.cons_append, List.map_cons, List.foldr_cons, ih, List.map_cons, List.foldr_cons,
      Nat.add_assoc]

/-- Whatever course is left of a routine, it reaches a goal after pauses that have passed. -/
def Meets (goal : List Duration → Except String α → Prop) (passed : List Duration)
    (rest : Routine σ α) : Prop :=
  ∀ pauses outcome, Routine.Course rest pauses outcome → goal (passed ++ pauses) outcome

/-- A routine with a goal, which it reaches if the state is fit for it when it starts. -/
structure Thread (σ α : Type) where
  run : Routine σ α
  goal : List Duration → Except String α → Prop
  fit : σ → Prop

/-- The routine reaches its goal, in any case or after a look at a state that is fit for it. -/
inductive Thread.Opens (thread : Thread σ α) : Prop where
  | atOnce (h : Meets thread.goal [] thread.run)
  | read {next : σ → Routine σ α} (he : thread.run = .commit id next)
      (h : ∀ s, thread.fit s → Meets thread.goal [] (next s))

/-- A commit that leaves a state fit. -/
def Spares (fit : σ → Prop) (update : σ → σ) : Prop := ∀ s, fit s → fit (update s)

/-- How far a strand has come in a thread that started at a time. -/
inductive Follows (started : Nat) (s : σ) (thread : Thread σ α) : Strand σ α → Prop where
  | fresh (h : thread.fit s) : Follows started s thread (.underway started thread.run)
  | going {passed : List Duration} {rest : Routine σ α} (h : Meets thread.goal passed rest) :
      Follows started s thread (.underway (started + millis passed) rest)
  | ended {passed : List Duration} {outcome : Except String α} (h : thread.goal passed outcome) :
      Follows started s thread (.ended (started + millis passed) outcome)

namespace Follows

variable {started due : Nat} {s s' : σ} {thread : Thread σ α} {rest : Routine σ α}

/-- A strand on its way to the goal of its thread goes on. -/
theorem act_going {passed : List Duration} (h : Meets thread.goal passed rest) :
    Follows started s' thread (Strand.act (started + millis passed) s rest).1 := by
  cases rest with
  | done a =>
    have hgoal := h [] _ (.done a)
    rw [List.append_nil] at hgoal
    exact .ended hgoal
  | crash message =>
    have hgoal := h [] _ (.crash message)
    rw [List.append_nil] at hgoal
    exact .ended hgoal
  | commit update next => exact .going fun pauses outcome hc => h pauses outcome (.commit s hc)
  | pause length next =>
    have hlater : started + millis passed + length.fullMillis =
        started + millis (passed ++ [length]) := by
      rw [millis_append, Nat.add_assoc]
    show Follows started s' thread (.underway (started + millis passed + length.fullMillis) next)
    rw [hlater]
    refine .going fun pauses outcome hc => ?_
    rw [List.append_assoc]
    exact h (length :: pauses) outcome (.pause hc)

/-- A thread whose turn it is goes on. -/
theorem act (h : Follows started s thread (.underway due rest)) (ho : thread.Opens) :
    Follows started s' thread (Strand.act due s rest).1 := by
  cases h with
  | going h => exact act_going h
  | fresh hf =>
    cases ho with
    | atOnce h => exact @act_going _ _ started s s' thread _ [] h
    | @read next he h =>
      rw [he]
      exact @going _ _ started s' thread [] (next s) (h s hf)

/-- What is done to the state does not matter to a thread if it stays fit for it. -/
theorem keep {strand : Strand σ α} (h : Follows started s thread strand)
    (hf : thread.fit s → thread.fit s') : Follows started s' thread strand := by
  cases h with
  | fresh h => exact .fresh (hf h)
  | going h => exact .going h
  | ended h => exact .ended h

end Follows

/-- Threads that leave the state fit for each other. -/
structure Apart (threads : List (Thread σ α)) : Prop where
  opens : ∀ thread ∈ threads, thread.Opens
  spares : ∀ (i j : Nat) (a b : Thread σ α), threads[i]? = some a → threads[j]? = some b →
    i ≠ j → Routine.Commits (Spares b.fit) a.run

/-- Strands that keep to their threads. -/
structure Orderly (started : Nat) (threads : List (Thread σ α)) (w : Weave σ α) : Prop where
  length : w.strands.length = threads.length
  waits : w.Waits w.now
  follows : ∀ (i : Nat) thread strand, threads[i]? = some thread → w.strands[i]? = some strand →
    Follows started w.state thread strand
  spares : ∀ (i j : Nat) due rest (b : Thread σ α), w.strands[i]? = some (.underway due rest) →
    threads[j]? = some b → i ≠ j → Routine.Commits (Spares b.fit) rest

variable {started : Nat} {threads : List (Thread σ α)} {w next : Weave σ α}

theorem orderly_start (ha : Apart threads) {s : σ} (hs : ∀ thread ∈ threads, thread.fit s) :
    Orderly started threads (start started s (threads.map Thread.run)) := by
  constructor
  · simp [start]
  · intro due rest hmem
    obtain ⟨_, -, he⟩ := List.mem_map.mp hmem
    cases he
    exact Nat.le_refl started
  · intro i thread strand ht hstrand
    simp only [start, List.getElem?_map, ht, Option.map_some] at hstrand
    obtain rfl := Option.some.inj hstrand
    exact .fresh (hs thread (List.mem_of_getElem? ht))
  · intro i j due rest b hstrand hb hij
    simp only [start, List.getElem?_map, Option.map_map, Option.map_eq_some_iff] at hstrand
    obtain ⟨thread, ht, he⟩ := hstrand
    cases he
    exact ha.spares i j thread b ht hb hij

/-- What a step does to the state, if it does anything, is a commit of the routine. -/
theorem act_spares {fit : σ → Prop} {now : Nat} {s : σ} {rest : Routine σ α}
    (h : Routine.Commits (Spares fit) rest) (hf : fit s) : fit (Strand.act now s rest).2 := by
  cases h with
  | done a => exact hf
  | crash message => exact hf
  | commit hk hn => exact hk s hf
  | pause h => exact hf

theorem commits_act {fit : σ → Prop} {now due : Nat} {s : σ} {rest later : Routine σ α}
    (h : Routine.Commits (Spares fit) rest)
    (hl : (Strand.act now s rest).1 = .underway due later) :
    Routine.Commits (Spares fit) later := by
  cases h with
  | done a => cases hl
  | crash message => cases hl
  | commit hk hn =>
    cases hl
    exact hn s
  | pause h =>
    cases hl
    exact h

theorem le_of_act {now due : Nat} {s : σ} {rest later : Routine σ α}
    (hl : (Strand.act now s rest).1 = .underway due later) : now ≤ due := by
  cases rest with
  | done a => cases hl
  | crash message => cases hl
  | commit update next =>
    cases hl
    exact Nat.le_refl now
  | pause length next =>
    cases hl
    exact Nat.le_add_right now _

theorem Step.orderly (ha : Apart threads) (hs : Step w next) (h : Orderly started threads w) :
    Orderly started threads next := by
  cases hs with
  | @turn i due rest hi hw =>
    have hnow : max w.now due = due := by
      have hdue := h.waits due rest (List.mem_of_getElem? hi)
      omega
    rw [hnow]
    constructor
    · simp only [List.length_set]
      exact h.length
    · intro other later hmem
      rcases List.mem_or_eq_of_mem_set hmem with hmem | he
      · exact hw other later hmem
      · exact le_of_act he.symm
    · intro j thread strand ht hstrand
      by_cases hij : i = j
      · subst hij
        rw [List.getElem?_set_self (List.getElem?_eq_some_iff.mp hi).1] at hstrand
        obtain rfl := Option.some.inj hstrand
        exact (h.follows i thread _ ht hi).act (ha.opens thread (List.mem_of_getElem? ht))
      · rw [List.getElem?_set_ne hij] at hstrand
        exact (h.follows j thread strand ht hstrand).keep
          (act_spares (h.spares i j due rest thread hi ht hij))
    · intro j k other later b hstrand hb hjk
      by_cases hij : i = j
      · subst hij
        rw [List.getElem?_set_self (List.getElem?_eq_some_iff.mp hi).1] at hstrand
        exact commits_act (h.spares i k due rest b hi hb hjk) (Option.some.inj hstrand)
      · rw [List.getElem?_set_ne hij] at hstrand
        exact h.spares j k other later b hstrand hb hjk

theorem Reaches.orderly {may : σ → σ → Prop} {first : Weave σ α} (ha : Apart threads)
    (hm : ∀ thread ∈ threads, ∀ s s', may s s' → thread.fit s → thread.fit s')
    (hfirst : Orderly started threads first) (h : Reaches may first w) :
    Orderly started threads w := by
  induction h with
  | refl => exact hfirst
  | step h hs ih => exact hs.orderly ha ih
  | @others w s h ho ih =>
    constructor
    · exact ih.length
    · exact ih.waits
    · intro i thread strand ht hstrand
      exact (ih.follows i thread strand ht hstrand).keep
        (hm thread (List.mem_of_getElem? ht) w.state s ho)
    · exact ih.spares

/-- When all is over, each routine has reached its goal, after the pauses that the goal tells. -/
theorem Orderly.ended (h : Orderly started threads w) (ho : w.Over) :
    List.Forall₂ (fun thread strand => ∃ pauses outcome, thread.goal pauses outcome ∧
      strand = .ended (started + millis pauses) outcome) threads w.strands := by
  rw [List.forall₂_iff_get]
  refine ⟨h.length.symm, fun i hi hj => ?_⟩
  have hfollows := h.follows i _ _ (List.getElem?_eq_getElem hi) (List.getElem?_eq_getElem hj)
  obtain ⟨time, outcome, he⟩ := ho _ (List.getElem_mem hj)
  rw [he] at hfollows
  simp only [List.get_eq_getElem, he]
  cases hfollows with
  | ended hc => exact ⟨_, _, hc, rfl⟩

end Weave
end Automation
