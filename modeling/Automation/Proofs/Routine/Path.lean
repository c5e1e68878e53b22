import Automation.Proofs.Routine.Course

/-!
# The steps of a routine

What a routine did, as the states that each of its steps found and left. Between two of its steps
others may have changed the state, so a step need not find what the one before it left. The steps of
a sequence are those of its first part and then those of its second.
-/
namespace Automation.Routine

variable {σ τ α β : Type}

/-- A routine comes to an end by these steps. -/
inductive Ends : Routine σ α → List (σ × σ) → Except String α → Prop where
  | done (a : α) : Ends (.done a) [] (.ok a)
  | crash (message : String) : Ends (.crash message) [] (.error message)
  | commit {update : σ → σ} {next : σ → Routine σ α} {steps : List (σ × σ)}
      {outcome : Except String α} (s : σ) (h : Ends (next s) steps outcome) :
      Ends (.commit update next) ((s, update s) :: steps) outcome
  | pause {length : Duration} {next : Routine σ α} {steps : List (σ × σ)}
      {outcome : Except String α} (s : σ) (h : Ends next steps outcome) :
      Ends (.pause length next) ((s, s) :: steps) outcome

/-- A routine comes by these steps to where another one is left of it. -/
inductive Path (p : Routine σ α) : List (σ × σ) → Routine σ α → Prop where
  | refl : Path p [] p
  | tail {steps : List (σ × σ)} {q rest : Routine σ α} {s s' : σ} (h : Path p steps q)
      (hs : q.Step s rest s') : Path p (steps ++ [(s, s')]) rest

/-- What a routine has come to, if nothing is left of it to do. -/
def outcome? : Routine σ α → Option (Except String α)
  | done a => some (.ok a)
  | crash message => some (.error message)
  | commit _ _ | pause _ _ => none

theorem ends_of_outcome? {p : Routine σ α} {outcome : Except String α}
    (h : p.outcome? = some outcome) : Ends p [] outcome := by
  cases p with
  | done a =>
    obtain rfl := Option.some.inj h
    exact .done a
  | crash message =>
    obtain rfl := Option.some.inj h
    exact .crash message
  | commit update next => cases h
  | pause length next => cases h

theorem Step.ends {p q : Routine σ α} {s s' : σ} {steps : List (σ × σ)} {outcome : Except String α}
    (hs : p.Step s q s') (h : Ends q steps outcome) : Ends p ((s, s') :: steps) outcome := by
  cases hs with
  | commit => exact .commit s h
  | pause => exact .pause s h

/-- A routine ends as what is left of it does. -/
theorem Path.ends {p q : Routine σ α} {before after : List (σ × σ)} {outcome : Except String α}
    (h : Path p before q) (hq : Ends q after outcome) : Ends p (before ++ after) outcome := by
  induction h generalizing after with
  | refl => exact hq
  | tail h hs ih =>
    rw [List.append_assoc]
    exact ih (hs.ends hq)

/-- A sequence ends in its first part, or its second part ends it. -/
theorem ends_bind {p : Routine σ α} {f : α → Routine σ β} {steps : List (σ × σ)}
    {outcome : Except String β} (h : Ends (p >>= f) steps outcome) :
    (∃ message, Ends p steps (.error message) ∧ outcome = .error message) ∨
      ∃ a before after, Ends p before (.ok a) ∧ Ends (f a) after outcome ∧
        steps = before ++ after := by
  change Ends (p.bind f) steps outcome at h
  induction p generalizing steps with
  | done a => exact Or.inr ⟨a, [], steps, .done a, h, rfl⟩
  | crash message =>
    cases h with
    | crash => exact Or.inl ⟨message, .crash message, rfl⟩
  | commit update next ih =>
    cases h with
    | commit s h =>
      rcases ih s h with ⟨message, hp, he⟩ | ⟨a, before, after, hp, hf, rfl⟩
      · exact Or.inl ⟨message, .commit s hp, he⟩
      · exact Or.inr ⟨a, (s, update s) :: before, after, .commit s hp, hf, rfl⟩
  | pause length next ih =>
    cases h with
    | pause s h =>
      rcases ih h with ⟨message, hp, he⟩ | ⟨a, before, after, hp, hf, rfl⟩
      · exact Or.inl ⟨message, .pause s hp, he⟩
      · exact Or.inr ⟨a, (s, s) :: before, after, .pause s hp, hf, rfl⟩

section Own

variable {own left : τ} {steps : List (σ × σ)}

end Own

/-- A guarded routine takes the steps of the routine and does not crash. -/
theorem ends_guarded {p : Routine σ α} {steps : List (σ × σ)}
    {outcome : Except String (Except String α)} (h : Ends p.guarded steps outcome) :
    ∃ result, outcome = .ok result ∧ Ends p steps result := by
  induction p generalizing steps with
  | done a =>
    cases h with
    | done => exact ⟨.ok a, rfl, .done a⟩
  | crash message =>
    cases h with
    | done => exact ⟨.error message, rfl, .crash message⟩
  | commit update next ih =>
    cases h with
    | commit s h =>
      obtain ⟨result, he, hr⟩ := ih s h
      exact ⟨result, he, .commit s hr⟩
  | pause length next ih =>
    cases h with
    | pause s h =>
      obtain ⟨result, he, hr⟩ := ih h
      exact ⟨result, he, .pause s hr⟩

/-- Every step that a routine may take changes the state like this; a pause is one that changes
nothing. -/
inductive Moves (may : σ → σ → Prop) : Routine σ α → Prop where
  | done (a : α) : Moves may (.done a)
  | crash (message : String) : Moves may (.crash message)
  | commit {update : σ → σ} {next : σ → Routine σ α} (hm : ∀ s, may s (update s))
      (hn : ∀ s, Moves may (next s)) : Moves may (.commit update next)
  | pause {length : Duration} {next : Routine σ α} (hm : ∀ s, may s s) (h : Moves may next) :
      Moves may (.pause length next)

section Moves

variable {may : σ → σ → Prop} {p q : Routine σ α} {s s' : σ} {steps : List (σ × σ)}
  {outcome : Except String α}

theorem Commits.moves {kind : (σ → σ) → Prop} (h : Commits kind p)
    (hk : ∀ update, kind update → ∀ s, may s (update s)) (hp : ∀ s, may s s) : Moves may p := by
  induction h with
  | done a => exact .done a
  | crash message => exact .crash message
  | commit hu hn ih => exact .commit (hk _ hu) ih
  | pause h ih => exact .pause hp ih

theorem Moves.step (h : Moves may p) (hs : Step p s q s') : Moves may q ∧ may s s' := by
  cases hs with
  | commit =>
    cases h with
    | commit hm hn => exact ⟨hn s, hm s⟩
  | pause =>
    cases h with
    | pause hm h => exact ⟨h, hm s⟩

/-- What is left of a routine takes no other steps than the routine. -/
theorem Moves.path (h : Moves may p) (hp : Path p steps q) : Moves may q := by
  induction hp with
  | refl => exact h
  | tail _ hs ih => exact (ih.step hs).1

theorem Moves.ends (h : Moves may p) (he : Ends p steps outcome) :
    ∀ step ∈ steps, may step.1 step.2 := by
  induction he with
  | done a => exact List.forall_mem_nil _
  | crash message => exact List.forall_mem_nil _
  | commit s he ih =>
    cases h with
    | commit hm hn => exact List.forall_mem_cons.mpr ⟨hm s, ih (hn s)⟩
  | pause s he ih =>
    cases h with
    | pause hm h => exact List.forall_mem_cons.mpr ⟨hm s, ih h⟩

end Moves

end Automation.Routine
