import Automation.Proofs.Routine.Course

/-!
# Routines that come to the same

Two routines concur if any course of the one and any course of the other have the same pauses, and
come to the same but for what a relation on results leaves open; they crash with one message or not
at all. A routine that concurs with itself comes to the same whatever others do to the state
meanwhile. Concurrence goes through a sequence.
-/
namespace Automation.Routine

variable {σ τ υ α β γ δ : Type}

/-- Related results, or crashes with one message. -/
inductive SameOutcome (rel : α → β → Prop) : Except String α → Except String β → Prop where
  | ok {a : α} {b : β} (h : rel a b) : SameOutcome rel (.ok a) (.ok b)
  | error (message : String) : SameOutcome rel (.error message) (.error message)

theorem SameOutcome.of_ok {rel : α → β → Prop} {a : α} {outcome : Except String β}
    (h : SameOutcome rel (.ok a) outcome) : ∃ b, outcome = .ok b ∧ rel a b := by
  cases h with
  | ok h => exact ⟨_, rfl, h⟩

/-- All courses of the two have the same pauses and related outcomes. -/
def Concur (rel : α → β → Prop) (p : Routine σ α) (q : Routine τ β) : Prop :=
  ∀ pauses outcome, Course p pauses outcome → ∀ others other, Course q others other →
    pauses = others ∧ SameOutcome rel outcome other

/-- The state makes no difference to what the routine comes to. -/
def Determined (p : Routine σ α) : Prop := Concur Eq p p

section Results

variable {rel : α → β → Prop} {later : γ → δ → Prop} {p : Routine σ α} {q : Routine τ β}

theorem concur_pure {a : α} {b : β} (h : rel a b) :
    Concur rel (pure a : Routine σ α) (pure b : Routine τ β) := by
  intro pauses outcome hp others other hq
  cases hp with
  | done => cases hq with
    | done => exact ⟨rfl, .ok h⟩

theorem concur_crash (message : String) :
    Concur rel (crash message : Routine σ α) (crash message : Routine τ β) := by
  intro pauses outcome hp others other hq
  cases hp with
  | crash => cases hq with
    | crash => exact ⟨rfl, .error message⟩

theorem concur_commit {update : σ → σ} {change : τ → τ} {next : σ → Routine σ α}
    {follow : τ → Routine τ β} (h : ∀ s t, Concur rel (next s) (follow t)) :
    Concur rel (commit update next) (commit change follow) := by
  intro pauses outcome hp others other hq
  cases hp with
  | commit s hp => cases hq with
    | commit t hq => exact h s t pauses outcome hp others other hq

theorem concur_modify (update : σ → σ) (change : τ → τ) :
    Concur Eq (modify update) (modify change) :=
  concur_commit fun _ _ => concur_pure rfl

theorem concur_pause (length : Duration) (h : Concur rel p q) :
    Concur rel (pause length p) (pause length q) := by
  intro pauses outcome hp others other hq
  cases hp with
  | pause hp => cases hq with
    | pause hq =>
      obtain ⟨he, ho⟩ := h _ _ hp _ _ hq
      exact ⟨congrArg (length :: ·) he, ho⟩

theorem concur_sleep (length : Duration) :
    Concur Eq (sleep length : Routine σ Unit) (sleep length : Routine τ Unit) :=
  concur_pause length (concur_pure rfl)

theorem Concur.mono {wide : α → β → Prop} (h : Concur rel p q)
    (hw : ∀ a b, rel a b → wide a b) : Concur wide p q := by
  intro pauses outcome hp others other hq
  obtain ⟨he, ho⟩ := h pauses outcome hp others other hq
  refine ⟨he, ?_⟩
  cases ho with
  | ok ho => exact .ok (hw _ _ ho)
  | error message => exact .error message

theorem Concur.bind {f : α → Routine σ γ} {g : β → Routine τ δ} (h : Concur rel p q)
    (hf : ∀ a b, rel a b → Concur later (f a) (g b)) : Concur later (p >>= f) (q >>= g) := by
  intro pauses outcome hleft others other hright
  rcases course_bind hleft with ⟨message, hp, rfl⟩ | ⟨a, before, after, hp, hlater, rfl⟩
  · rcases course_bind hright with ⟨text, hq, rfl⟩ | ⟨b, first, last, hq, -, -⟩
    · obtain ⟨he, ho⟩ := h _ _ hp _ _ hq
      cases ho with
      | error => exact ⟨he, .error message⟩
    · obtain ⟨-, ho⟩ := h _ _ hp _ _ hq
      cases ho
  · rcases course_bind hright with ⟨text, hq, rfl⟩ | ⟨b, first, last, hq, hfollow, rfl⟩
    · obtain ⟨-, ho⟩ := h _ _ hp _ _ hq
      cases ho
    · obtain ⟨rfl, ho⟩ := h _ _ hp _ _ hq
      cases ho with
      | ok hr =>
        obtain ⟨rfl, hl⟩ := hf a b hr _ _ hlater _ _ hfollow
        exact ⟨rfl, hl⟩

/-- A sequence of routines that are determined. -/
theorem Concur.andThen {f : α → Routine σ γ} {g : α → Routine τ δ} {q : Routine τ α}
    (h : Concur Eq p q) (hf : ∀ a, Concur later (f a) (g a)) :
    Concur later (p >>= f) (q >>= g) :=
  h.bind fun a _ he => he ▸ hf a

theorem Concur.guarded (h : Concur rel p q) : Concur (SameOutcome rel) p.guarded q.guarded := by
  intro pauses outcome hleft others other hright
  obtain ⟨result, rfl, hp⟩ := course_guarded hleft
  obtain ⟨answer, rfl, hq⟩ := course_guarded hright
  obtain ⟨he, ho⟩ := h _ _ hp _ _ hq
  exact ⟨he, .ok ho⟩

theorem Concur.within {ρ : Type} {part : ρ → σ} {replace : ρ → σ → ρ} {piece : υ → τ}
    {put : υ → τ → υ} (h : Concur rel p q) :
    Concur rel (p.within part replace) (q.within piece put) :=
  fun _ _ hp _ _ hq => h _ _ (course_within hp) _ _ (course_within hq)

end Results

/-- Whatever a determined routine is asked, it gives the answer that it gives by itself. -/
theorem Determined.guarded {p : Routine σ α} (h : Determined p) : Determined p.guarded := by
  refine Concur.mono (Concur.guarded h) fun a b hab => ?_
  cases hab with
  | ok h => exact congrArg Except.ok h
  | error message => rfl

/-- A determined routine comes to one outcome. -/
theorem Determined.exists_outcome {p : Routine σ α} (h : Determined p) :
    ∃ outcome, ∀ pauses ending, Course p pauses ending → ending = outcome := by
  by_cases hp : ∃ pauses ending, Course p pauses ending
  · obtain ⟨pauses, outcome, hp⟩ := hp
    refine ⟨outcome, fun others ending hc => ?_⟩
    obtain ⟨-, hsame⟩ := h _ _ hc _ _ hp
    cases hsame with
    | ok he => exact congrArg Except.ok he
    | error message => rfl
  · exact ⟨.error "", fun pauses ending hc => absurd ⟨pauses, ending, hc⟩ hp⟩

end Automation.Routine
