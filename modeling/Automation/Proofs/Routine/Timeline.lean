import Automation.Proofs.Routine.Weave
import Automation.Routine.Timeline
import Mathlib.Data.List.Perm.Basic
import Mathlib.Logic.Relation

/-!
# A timeline lets routines take turns

A timeline runs each routine until it waits and then wakes the one whose pause is over first. That
is one way in which routines side by side can take turns, and with enough fuel it goes on until all
of them have ended.
-/
namespace Automation

variable {σ α : Type}

/-- A routine that finishes without waiting comes to the same by itself. -/
theorem Routine.outcome_of_finished {p : Routine σ α} {s : σ} {a : α}
    (h : (p.advance s).1 = .finished a) : (p.runAlone s).outcome = .ok a := by
  induction p generalizing s with
  | done b =>
    cases h
    rfl
  | crash message => cases h
  | commit update next ih => exact ih s h
  | pause length next ih =>
    rw [advance] at h
    split at h
    · exact ih h
    · cases h

namespace Routine.Standing

/-- Whether a routine has come to its end. -/
def isFinished : Standing σ α → Bool
  | finished _ => true
  | _ => false

theorem exists_finished {standing : Standing σ α} (h : standing.isFinished) :
    ∃ a, standing = finished a := by
  cases standing with
  | finished a => exact ⟨a, rfl⟩
  | crashed message => cases h
  | waiting length rest => cases h

end Routine.Standing

namespace Strand

/-- A strand whose routine has just run as far as it comes without waiting. -/
def ofStanding (now : Nat) : Routine.Standing σ α → Strand σ α
  | .finished a => ended now (.ok a)
  | .crashed message => ended now (.error message)
  | .waiting length rest => underway (now + length.fullMillis) rest

def waiting? : Strand σ α → Option (Nat × Routine σ α)
  | underway due rest => some (due, rest)
  | ended _ _ => none

def outcome? : Strand σ α → Option (Except String α)
  | underway _ _ => none
  | ended _ outcome => some outcome

theorem eq_of_waiting? {strand : Strand σ α} {due : Nat} {rest : Routine σ α}
    (h : strand.waiting? = some (due, rest)) : strand = underway due rest := by
  cases strand with
  | underway due rest =>
    cases h
    rfl
  | ended time outcome => cases h

end Strand

namespace Weave

open Relation

theorem Waits.set {w : Weave σ α} {time now i : Nat} {s : σ} {strand : Strand σ α}
    (h : w.Waits time) (hs : ∀ due rest, strand = .underway due rest → time ≤ due) :
    Waits ⟨now, s, w.strands.set i strand⟩ time := by
  intro due rest hmem
  rcases List.mem_or_eq_of_mem_set hmem with hmem | he
  · exact h due rest hmem
  · exact hs due rest he.symm

theorem Waits.set_underway {w : Weave σ α} {due i : Nat} {s : σ} {rest : Routine σ α}
    (h : w.Waits due) : Waits ⟨due, s, w.strands.set i (.underway due rest)⟩ due := by
  refine h.set fun _ _ he => ?_
  cases he
  exact Nat.le_refl due

theorem Reaches.steps {may : σ → σ → Prop} {first w next : Weave σ α} (h : Reaches may first w)
    (hs : ReflTransGen Step w next) : Reaches may first next := by
  induction hs with
  | refl => exact h
  | tail _ hstep ih => exact ih.step hstep

theorem Step.due {w : Weave σ α} {i due : Nat} {rest : Routine σ α}
    (hi : w.strands[i]? = some (.underway due rest)) (hw : w.Waits due) (hnow : w.now ≤ due) :
    Step w ⟨due, (Strand.act due w.state rest).2,
      w.strands.set i (Strand.act due w.state rest).1⟩ := by
  have hstep := Step.turn hi hw
  rw [Nat.max_eq_right hnow] at hstep
  exact hstep

/-- A routine that runs until it waits does its turns one after the other. -/
theorem steps_advance (rest : Routine σ α) {w : Weave σ α} {i due : Nat}
    (hi : w.strands[i]? = some (.underway due rest)) (hw : w.Waits due) (hnow : w.now ≤ due) :
    TransGen Step w ⟨due, (rest.advance w.state).2,
      w.strands.set i (.ofStanding due (rest.advance w.state).1)⟩ := by
  induction rest generalizing w with
  | done a => exact .single (.due hi hw hnow)
  | crash message => exact .single (.due hi hw hnow)
  | commit update next ih =>
    have hlater := @ih w.state ⟨due, update w.state, w.strands.set i (.underway due (next w.state))⟩
      (List.getElem?_set_self (List.getElem?_eq_some_iff.mp hi).1) hw.set_underway (Nat.le_refl due)
    rw [List.set_set] at hlater
    exact .head (.due hi hw hnow) hlater
  | pause length next ih =>
    by_cases hzero : length.nanos = 0
    · have hadvance : (Routine.pause length next).advance w.state = next.advance w.state :=
        if_pos hzero
      have hlength : due + length.fullMillis = due := by
        rw [Duration.fullMillis, hzero]
        rfl
      have hlater := @ih ⟨due, w.state, w.strands.set i (.underway due next)⟩
        (List.getElem?_set_self (List.getElem?_eq_some_iff.mp hi).1) hw.set_underway
        (Nat.le_refl due)
      have hstep := Step.due hi hw hnow
      simp only [Strand.act, hlength] at hstep
      rw [List.set_set, ← hadvance] at hlater
      exact .head hstep hlater
    · have hadvance : (Routine.pause length next).advance w.state =
          (.waiting length next, w.state) := if_neg hzero
      rw [hadvance]
      exact .single (.due hi hw hnow)

/-- What a routine becomes that runs until it waits or ends. -/
theorem steps_standing {routine : Routine σ α} {s s' : σ} {standing : Routine.Standing σ α}
    {now due i : Nat} {strands : List (Strand σ α)}
    (hi : strands[i]? = some (.underway due routine)) (hw : Waits ⟨now, s, strands⟩ due)
    (hnow : now ≤ due) (h : routine.advance s = (standing, s')) :
    TransGen Step ⟨now, s, strands⟩ ⟨due, s', strands.set i (.ofStanding due standing)⟩ := by
  have hsteps := @steps_advance _ _ routine ⟨now, s, strands⟩ i due hi hw hnow
  rw [h] at hsteps
  exact hsteps

/-- A routine that finishes without waiting. -/
theorem steps_finished {routine : Routine σ α} {s s' : σ} {a : α} {now i : Nat}
    {strands : List (Strand σ α)} (hi : strands[i]? = some (.underway now routine))
    (hw : Waits ⟨now, s, strands⟩ now) (h : routine.advance s = (.finished a, s')) :
    TransGen Step ⟨now, s, strands⟩ ⟨now, s', strands.set i (.ended now (.ok a))⟩ :=
  steps_standing hi hw (Nat.le_refl now) h

theorem filterMap_set_perm {β γ : Type} (f : β → Option γ) {l : List β} {i : Nat} {old : β}
    (h : l[i]? = some old) (new : β) :
    ((f old).toList ++ (l.set i new).filterMap f).Perm ((f new).toList ++ l.filterMap f) := by
  have hlast : ∀ (m : List β) (b : β),
      ((f b).toList ++ m.filterMap f).Perm ((m ++ [b]).filterMap f) := by
    intro m b
    have hone : [b].filterMap f = (f b).toList := by cases h : f b <;> simp [h]
    rw [List.filterMap_append, hone]
    exact List.perm_append_comm
  exact (hlast _ old).trans (((perm_set h new).filterMap f).trans (hlast l new).symm)

theorem over_of_waiting?_eq_nil {w : Weave σ α} (h : w.strands.filterMap Strand.waiting? = []) :
    w.Over := by
  intro strand hmem
  have hnone := List.filterMap_eq_nil_iff.mp h strand hmem
  cases strand with
  | underway due rest => cases hnone
  | ended time outcome => exact ⟨time, outcome, rfl⟩

/-- How those that have ended did so. -/
def outcomes (w : Weave σ α) : List (Except String α) := w.strands.filterMap Strand.outcome?

theorem results_eq (w : Weave σ α) : w.results = w.outcomes.filterMap Except.toOption := by
  rw [outcomes, List.filterMap_filterMap]
  apply List.filterMap_congr
  intro strand _
  cases strand with
  | underway due rest => rfl
  | ended time outcome =>
    cases outcome with
    | error message => rfl
    | ok a => rfl

end Weave

/-- When a sleeper goes on, and with what. -/
def Sleeper.place (sleeper : Sleeper σ α) : Nat × Routine σ α := (sleeper.due, sleeper.rest)

namespace Timeline

open Relation Weave

theorem next?_eq_none {sleepers : List (Sleeper σ α)} (h : next? sleepers = none) :
    sleepers = [] := by
  cases sleepers with
  | nil => rfl
  | cons sleeper rest =>
    rw [next?] at h
    split at h
    · cases h
    · split at h <;> cases h

/-- The sleeper that wakes next is one of the first to wake. -/
theorem next?_eq_some {sleepers others : List (Sleeper σ α)} {first : Sleeper σ α}
    (h : next? sleepers = some (first, others)) :
    sleepers.Perm (first :: others) ∧ ∀ sleeper ∈ sleepers, first.due ≤ sleeper.due := by
  induction sleepers generalizing first others with
  | nil => cases h
  | cons sleeper rest ih =>
    rw [next?] at h
    cases hnext : next? rest with
    | none =>
      obtain rfl := next?_eq_none hnext
      cases h
      exact ⟨.refl _, List.forall_mem_singleton.mpr (Nat.le_refl _)⟩
    | some found =>
      obtain ⟨second, later⟩ := found
      obtain ⟨hperm, hmin⟩ := ih hnext
      rw [hnext] at h
      simp only at h
      split at h
      · next hlt =>
        cases h
        refine ⟨(hperm.cons sleeper).trans (List.Perm.swap _ _ _), ?_⟩
        exact List.forall_mem_cons.mpr ⟨Nat.le_of_lt hlt, hmin⟩
      · next hle =>
        cases h
        refine ⟨.refl _, List.forall_mem_cons.mpr ⟨Nat.le_refl _, fun other hother => ?_⟩⟩
        have hsecond := hmin other hother
        omega

/-- A timeline, with routines that have not started yet, shows routines side by side. All of them
are of one job, and there are so many. -/
structure Shows (job count : Nat) (t : Timeline σ α) (s : σ) (pending : List (Routine σ α))
    (w : Weave σ α) : Prop where
  now : w.now = t.now
  state : w.state = s
  waits : w.Waits t.now
  waiting : (w.strands.filterMap Strand.waiting?).Perm
    (t.sleepers.map Sleeper.place ++ pending.map fun routine => (t.now, routine))
  ended : (w.strands.filterMap Strand.outcome?).Perm (t.ended.map Ended.outcome)
  jobs : (∀ sleeper ∈ t.sleepers, sleeper.job = job) ∧ ∀ e ∈ t.ended, e.job = job
  count : t.sleepers.length + pending.length + t.ended.length = count

variable {job part count : Nat} {t : Timeline σ α} {s : σ} {pending : List (Routine σ α)}
  {w : Weave σ α}

theorem Shows.endings_eq (h : Shows job count t s pending w) : t.endings job = t.ended :=
  List.filter_eq_self.mpr fun e hmem => decide_eq_true (h.jobs.2 e hmem)

/-- A routine that need not wait runs as far as it comes. -/
theorem shows_run {rest : Routine σ α} (hstate : w.state = s) (hnow : w.now ≤ t.now)
    (hw : w.Waits t.now)
    (hwaiting : (w.strands.filterMap Strand.waiting?).Perm ((t.now, rest) ::
      (t.sleepers.map Sleeper.place ++ pending.map fun routine => (t.now, routine))))
    (hended : (w.strands.filterMap Strand.outcome?).Perm (t.ended.map Ended.outcome))
    (hjobs : (∀ sleeper ∈ t.sleepers, sleeper.job = job) ∧ ∀ e ∈ t.ended, e.job = job)
    (hcount : t.sleepers.length + pending.length + t.ended.length + 1 = count) :
    ∃ next, TransGen Step w next ∧
      Shows job count (t.run s job part rest).1 (t.run s job part rest).2 pending next := by
  obtain ⟨strand, hmem, hstrand⟩ := List.mem_filterMap.mp (hwaiting.mem_iff.mpr List.mem_cons_self)
  obtain rfl := Strand.eq_of_waiting? hstrand
  obtain ⟨i, hi⟩ := List.mem_iff_getElem?.mp hmem
  subst hstate
  refine ⟨_, steps_advance rest hi hw hnow, ?_⟩
  have hset : ∀ new : Strand σ α, ((w.strands.set i new).filterMap Strand.waiting?).Perm
      (new.waiting?.toList ++
        (t.sleepers.map Sleeper.place ++ pending.map fun routine => (t.now, routine))) := by
    intro new
    have hall := (filterMap_set_perm Strand.waiting? hi new).trans (hwaiting.append_left _)
    exact (List.perm_cons _).mp (hall.trans List.perm_middle)
  have hout : ∀ new : Strand σ α, ((w.strands.set i new).filterMap Strand.outcome?).Perm
      (new.outcome?.toList ++ t.ended.map Ended.outcome) := fun new =>
    (filterMap_set_perm Strand.outcome? hi new).trans (hended.append_left _)
  have hdone : ∀ s' outcome, Shows job count
      { t with ended := t.ended ++ [⟨job, part, outcome⟩] } s' pending
      ⟨t.now, s', w.strands.set i (.ended t.now outcome)⟩ := by
    intro s' outcome
    refine ⟨rfl, rfl, hw.set ?_, hset _, ?_, ⟨hjobs.1, ?_⟩, ?_⟩
    · intro _ _ he
      cases he
    · rw [List.map_append]
      exact (hout _).trans List.perm_append_comm
    · exact List.forall_mem_append.mpr ⟨hjobs.2, List.forall_mem_singleton.mpr rfl⟩
    · simp only [List.length_append, List.length_singleton]
      omega
  unfold run
  cases rest.advance w.state with
  | mk standing s' =>
    cases standing with
    | finished a => exact hdone s' (.ok a)
    | crashed message => exact hdone s' (.error message)
    | waiting length later =>
      refine ⟨rfl, rfl, hw.set fun _ _ he => ?_, ?_, hout _, ⟨?_, hjobs.2⟩, ?_⟩
      · cases he
        exact Nat.le_add_right t.now _
      · have hmiddle : ((t.after length, later) :: (t.sleepers.map Sleeper.place ++
            pending.map fun routine => (t.now, routine))).Perm
              ((t.sleepers ++ [(⟨t.after length, job, part, later⟩ : Sleeper σ α)]).map
                Sleeper.place ++ pending.map fun routine => (t.now, routine)) := by
          rw [List.map_append, List.append_assoc]
          exact List.perm_middle.symm
        exact (hset _).trans hmiddle
      · exact List.forall_mem_append.mpr ⟨hjobs.1, List.forall_mem_singleton.mpr rfl⟩
      · simp only [List.length_append, List.length_singleton]
        omega

theorem Shows.launch {routines : List (Routine σ α)} (h : Shows job count t s routines w)
    (part : Nat) : ∃ next, ReflTransGen Step w next ∧ Shows job count
      (t.launch s job part routines).1 (t.launch s job part routines).2 [] next := by
  induction routines generalizing t s w part with
  | nil => exact ⟨w, .refl, h⟩
  | cons routine rest ih =>
    have hcount := h.count
    rw [List.length_cons] at hcount
    obtain ⟨next, hnext, hshows⟩ := @shows_run _ _ job part count t s rest w routine h.state
      (Nat.le_of_eq h.now) h.waits (h.waiting.trans List.perm_middle) h.ended h.jobs (by omega)
    obtain ⟨last, hlast, hshows⟩ := ih hshows (part + 1)
    exact ⟨last, hnext.to_reflTransGen.trans hlast, hshows⟩

/-- When all have started, those that sleep are those under way. -/
theorem Shows.perm_place (h : Shows job count t s [] w) :
    (w.strands.filterMap Strand.waiting?).Perm (t.sleepers.map Sleeper.place) := by
  have hwaiting := h.waiting
  rw [List.map_nil, List.append_nil] at hwaiting
  exact hwaiting

theorem Shows.mem_sleepers (h : Shows job count t s [] w) {due : Nat} {rest : Routine σ α} :
    .underway due rest ∈ w.strands ↔ ∃ sleeper ∈ t.sleepers, sleeper.place = (due, rest) := by
  rw [← List.mem_map, ← h.perm_place.mem_iff, List.mem_filterMap]
  constructor
  · exact fun hmem => ⟨_, hmem, rfl⟩
  · intro hwaiting
    obtain ⟨strand, hmem, hstrand⟩ := hwaiting
    exact Strand.eq_of_waiting? hstrand ▸ hmem

/-- A timeline on which somebody sleeps wakes the first. -/
theorem Shows.wake (h : Shows job count t s [] w) (hsleepers : t.sleepers ≠ []) :
    ∃ t' s', t.wake? s none = some (t', s') ∧ ∃ next, TransGen Step w next ∧
      Shows job count t' s' [] next := by
  cases hnext : next? t.sleepers with
  | none => exact absurd (next?_eq_none hnext) hsleepers
  | some found =>
    obtain ⟨first, others⟩ := found
    obtain ⟨hperm, hmin⟩ := next?_eq_some hnext
    have hfirst : first ∈ t.sleepers := hperm.mem_iff.mpr List.mem_cons_self
    have hlater : t.now ≤ first.due := h.waits _ _ (h.mem_sleepers.mpr ⟨first, hfirst, rfl⟩)
    have hdue : w.Waits first.due := by
      intro due rest hmem
      obtain ⟨sleeper, hsleeper, he⟩ := h.mem_sleepers.mp hmem
      cases he
      exact hmin sleeper hsleeper
    have hothers : ∀ sleeper ∈ others, sleeper.job = job := fun sleeper hmem =>
      h.jobs.1 sleeper (hperm.mem_iff.mpr (List.mem_cons_of_mem _ hmem))
    have hrun := @shows_run _ _ job first.part count
      { t with now := first.due, sleepers := others } s [] w first.rest h.state (h.now ▸ hlater)
      hdue ?_ h.ended ⟨hothers, h.jobs.2⟩ ?_
    · refine ⟨_, _, ?_, hrun⟩
      rw [wake?, hnext]
      simp [Nat.max_eq_right hlater, h.jobs.1 first hfirst]
    · rw [List.map_nil, List.append_nil]
      exact h.perm_place.trans (hperm.map Sleeper.place)
    · have hlength : t.sleepers.length = others.length + 1 := hperm.length_eq
      have hcount := h.count
      simp only [List.length_nil] at hcount ⊢
      omega

/-- With enough awakenings all comes to an end. -/
theorem Shows.await (h : Shows job count t s [] w) : ∃ fuel, ∀ more, fuel ≤ more →
    ∃ last, ReflTransGen Step w last ∧ last.Over ∧ Shows job count
      (Timeline.await job count more t s).1 (Timeline.await job count more t s).2 [] last := by
  induction w using (wellFounded_step (σ := σ) (α := α)).transGen.induction generalizing t s with
  | _ w ih =>
    have hcount := h.count
    rw [List.length_nil] at hcount
    by_cases hsleepers : t.sleepers = []
    · -- there is nobody left to wake
      have hall : count ≤ (t.endings job).length := by
        rw [h.endings_eq, ← hcount, hsleepers]
        simp
      have hover : w.Over := by
        apply over_of_waiting?_eq_nil
        have hnil := h.perm_place
        rw [hsleepers] at hnil
        exact hnil.eq_nil
      refine ⟨0, fun more _ => ⟨w, .refl, hover, ?_⟩⟩
      cases more with
      | zero => exact h
      | succ more =>
        rw [Timeline.await, if_pos hall]
        exact h
    · obtain ⟨t', s', hwake, next, hnext, hshows⟩ := h.wake hsleepers
      obtain ⟨fuel, hfuel⟩ := ih next hnext.swap hshows
      have hmissing : ¬ count ≤ (t.endings job).length := by
        have hpos := List.length_pos_of_ne_nil hsleepers
        rw [h.endings_eq]
        omega
      refine ⟨fuel + 1, fun more hmore => ?_⟩
      cases more with
      | zero => omega
      | succ more =>
        obtain ⟨last, hlast, hover, hshows⟩ := hfuel more (by omega)
        rw [Timeline.await, if_neg hmissing, hwake]
        exact ⟨last, hnext.to_reflTransGen.trans hlast, hover, hshows⟩

/-- What becomes of routines on a timeline of their own. -/
def playOut (fuel : Nat) (s : σ) (routines : List (Routine σ α)) : Timeline σ α × σ :=
  let (t, s) := start.launch s 0 0 routines
  t.await 0 routines.length fuel s

theorem shows_start (s : σ) (routines : List (Routine σ α)) :
    Shows 0 routines.length start s routines (Weave.start 0 s routines) := by
  constructor
  · rfl
  · rfl
  · intro due rest hmem
    exact Nat.zero_le due
  · rw [Weave.start, List.filterMap_map]
    exact .of_eq (congrFun List.filterMap_eq_map routines)
  · rw [Weave.start, List.filterMap_map]
    exact .of_eq (List.filterMap_eq_nil_iff.mpr fun _ _ => rfl)
  · exact ⟨List.forall_mem_nil _, List.forall_mem_nil _⟩
  · simp [start]

/-- A timeline that goes on for long enough is one way to take turns until all is over. -/
theorem exists_playOut (may : σ → σ → Prop) (s : σ) (routines : List (Routine σ α)) :
    ∃ fuel, ∀ more, fuel ≤ more → ∃ w, Reaches may (Weave.start 0 s routines) w ∧ w.Over ∧
      w.now = (playOut more s routines).1.now ∧ w.state = (playOut more s routines).2 ∧
      (((playOut more s routines).1.endings 0).map Ended.outcome).Perm w.outcomes := by
  obtain ⟨w, hw, hshows⟩ := (shows_start s routines).launch 0
  obtain ⟨fuel, hfuel⟩ := hshows.await
  refine ⟨fuel, fun more hmore => ?_⟩
  obtain ⟨last, hlast, hover, hend⟩ := hfuel more hmore
  refine ⟨last, Reaches.refl.steps (hw.trans hlast), hover, hend.now, hend.state, ?_⟩
  have hendings : (playOut more s routines).1.endings 0 = (playOut more s routines).1.ended :=
    hend.endings_eq
  rw [hendings]
  exact hend.ended.symm

/-- What those that did not crash came to. -/
theorem results_perm {endings : List (Ended α)} {w : Weave σ α}
    (h : (endings.map Ended.outcome).Perm w.outcomes) :
    (endings.filterMap fun e => e.outcome.toOption).Perm w.results := by
  have hperm := h.filterMap Except.toOption
  rw [List.filterMap_map] at hperm
  rw [results_eq]
  exact hperm

end Timeline
end Automation
