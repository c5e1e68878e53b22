import Automation.Proofs.Routine.Alone

/-!
# Routines that share the state

Between two steps of a routine others may do anything to the state. A course is what a routine can
come to then: the pauses it makes and how it ends, where every commit may find any state. What a
routine comes to when it has the state to itself is one of its courses. Courses of a sequence are
put together from courses of its parts, so a property that all courses of the parts have goes
through the sequence.
-/
namespace Automation.Routine

variable {σ τ υ α β γ δ : Type}

/-- One step of a routine, and what it makes of the state. -/
inductive Step : Routine σ α → σ → Routine σ α → σ → Prop where
  | commit {update : σ → σ} {next : σ → Routine σ α} {s : σ} :
      Step (.commit update next) s (next s) (update s)
  | pause {length : Duration} {next : Routine σ α} {s : σ} : Step (.pause length next) s next s

/-- What a routine can come to while others work on its state. -/
inductive Course : Routine σ α → List Duration → Except String α → Prop where
  | done (a : α) : Course (.done a) [] (.ok a)
  | crash (message : String) : Course (.crash message) [] (.error message)
  | commit {update : σ → σ} {next : σ → Routine σ α} {pauses : List Duration}
      {outcome : Except String α} (s : σ) (h : Course (next s) pauses outcome) :
      Course (.commit update next) pauses outcome
  | pause {length : Duration} {next : Routine σ α} {pauses : List Duration}
      {outcome : Except String α} (h : Course next pauses outcome) :
      Course (.pause length next) (length :: pauses) outcome

/-- Every commit of the routine is of a kind. -/
inductive Commits (kind : (σ → σ) → Prop) : Routine σ α → Prop where
  | done (a : α) : Commits kind (.done a)
  | crash (message : String) : Commits kind (.crash message)
  | commit {update : σ → σ} {next : σ → Routine σ α} (hk : kind update)
      (hn : ∀ s, Commits kind (next s)) : Commits kind (.commit update next)
  | pause {length : Duration} {next : Routine σ α} (h : Commits kind next) :
      Commits kind (.pause length next)

section Sequence

variable {p : Routine σ α} {f : α → Routine σ β} {pauses : List Duration}

theorem bind_assoc (p : Routine σ α) (f : α → Routine σ β) (g : β → Routine σ γ) :
    p >>= f >>= g = p >>= fun a => f a >>= g := by
  change (p.bind f).bind g = p.bind fun a => (f a).bind g
  induction p with
  | done a => rfl
  | crash message => rfl
  | commit update next ih => exact congrArg (commit update) (funext ih)
  | pause length next ih => exact congrArg (pause length) ih

/-- A course of a sequence ends in its first part, or goes on with a course of the second. -/
theorem course_bind {outcome : Except String β} (h : Course (p >>= f) pauses outcome) :
    (∃ message, Course p pauses (.error message) ∧ outcome = .error message) ∨
      ∃ a before after, Course p before (.ok a) ∧ Course (f a) after outcome ∧
        pauses = before ++ after := by
  change Course (p.bind f) pauses outcome at h
  induction p generalizing pauses with
  | done a => exact Or.inr ⟨a, [], pauses, .done a, h, rfl⟩
  | crash message =>
    cases h with
    | crash => exact Or.inl ⟨message, .crash message, rfl⟩
  | commit update next ih =>
    cases h with
    | commit s h =>
      rcases ih s h with ⟨message, hp, he⟩ | ⟨a, before, after, hp, hf, hs⟩
      · exact Or.inl ⟨message, .commit s hp, he⟩
      · exact Or.inr ⟨a, before, after, .commit s hp, hf, hs⟩
  | pause length next ih =>
    cases h with
    | pause h =>
      rcases ih h with ⟨message, hp, he⟩ | ⟨a, before, after, hp, hf, hs⟩
      · exact Or.inl ⟨message, .pause hp, he⟩
      · exact Or.inr ⟨a, length :: before, after, .pause hp, hf, congrArg (length :: ·) hs⟩

theorem Commits.mono {kind other : (σ → σ) → Prop} (h : Commits kind p)
    (hk : ∀ update, kind update → other update) : Commits other p := by
  induction h with
  | done a => exact .done a
  | crash message => exact .crash message
  | commit hu hn ih => exact .commit (hk _ hu) ih
  | pause h ih => exact .pause ih

theorem Commits.bind {kind : (σ → σ) → Prop} (h : Commits kind p)
    (hf : ∀ a, Commits kind (f a)) : Commits kind (p >>= f) := by
  change Commits kind (p.bind f)
  induction h with
  | done a => exact hf a
  | crash message => exact .crash message
  | commit hk hn ih => exact .commit hk ih
  | pause h ih => exact .pause ih

end Sequence

/-- What a routine comes to by itself is one of its courses. -/
theorem course_runAlone (p : Routine σ α) (s : σ) :
    Course p (p.runAlone s).pauses (p.runAlone s).outcome := by
  induction p generalizing s with
  | done a => exact .done a
  | crash message => exact .crash message
  | commit update next ih => exact .commit s (ih s (update s))
  | pause length next ih => exact .pause (ih s)

/-- What others can do to a part of the state they can do to the state. -/
theorem course_within {part : τ → σ} {replace : τ → σ → τ} {p : Routine σ α}
    {pauses : List Duration} {outcome : Except String α}
    (h : Course (p.within part replace) pauses outcome) : Course p pauses outcome := by
  induction p generalizing pauses with
  | done a =>
    cases h with
    | done => exact .done a
  | crash message =>
    cases h with
    | crash => exact .crash message
  | commit update next ih =>
    cases h with
    | commit t h => exact .commit (part t) (ih (part t) h)
  | pause length next ih =>
    cases h with
    | pause h => exact .pause (ih h)

theorem commits_within {part : τ → σ} {replace : τ → σ → τ} {kind : (τ → τ) → Prop}
    (h : ∀ update : σ → σ, kind fun t => replace t (update (part t))) (p : Routine σ α) :
    Commits kind (p.within part replace) := by
  induction p with
  | done a => exact .done a
  | crash message => exact .crash message
  | commit update next ih => exact .commit (h update) fun t => ih (part t)
  | pause length next ih => exact .pause ih

/-- A guarded routine ends as the routine does, with its crash as a result. -/
theorem course_guarded {p : Routine σ α} {pauses : List Duration}
    {outcome : Except String (Except String α)} (h : Course p.guarded pauses outcome) :
    ∃ result, outcome = .ok result ∧ Course p pauses result := by
  induction p generalizing pauses with
  | done a =>
    cases h with
    | done => exact ⟨.ok a, rfl, .done a⟩
  | crash message =>
    cases h with
    | done => exact ⟨.error message, rfl, .crash message⟩
  | commit update next ih =>
    cases h with
    | commit s h =>
      obtain ⟨result, he, hc⟩ := ih s h
      exact ⟨result, he, .commit s hc⟩
  | pause length next ih =>
    cases h with
    | pause h =>
      obtain ⟨result, he, hc⟩ := ih h
      exact ⟨result, he, .pause hc⟩

theorem Commits.guarded {kind : (σ → σ) → Prop} {p : Routine σ α} (h : Commits kind p) :
    Commits kind p.guarded := by
  induction h with
  | done a => exact .done _
  | crash message => exact .done _
  | commit hk hn ih => exact .commit hk ih
  | pause h ih => exact .pause ih

section Calm

variable {p : Routine σ α}

/-- A routine that does not crash: guarding it makes no difference to what it does. -/
def Calm (p : Routine σ α) : Prop := p.guarded = p >>= fun a => done (.ok a)

theorem calm_atomically (step : σ → α × σ) : Calm (atomically step) := rfl

/-- What has been guarded does not crash. -/
theorem calm_guarded (p : Routine σ α) : Calm p.guarded := by
  unfold Calm
  change p.guarded.guarded = p.guarded.bind fun result => done (.ok result)
  induction p with
  | done a => rfl
  | crash message => rfl
  | commit update next ih => exact congrArg (commit update) (funext ih)
  | pause length next ih => exact congrArg (pause length) ih

/-- Guarding a sequence is guarding its parts; a crash of the first is the end. -/
theorem guarded_bind (p : Routine σ α) (f : α → Routine σ β) :
    (p >>= f).guarded = p.guarded >>= fun
      | .ok a => (f a).guarded
      | .error message => done (.error message) := by
  change (p.bind f).guarded = p.guarded.bind _
  induction p with
  | done a => rfl
  | crash message => rfl
  | commit update next ih => exact congrArg (commit update) (funext ih)
  | pause length next ih => exact congrArg (pause length) ih

/-- If the first part of a sequence does not crash, only the second needs guarding. -/
theorem Calm.guarded_bind (h : Calm p) (f : α → Routine σ β) :
    (p >>= f).guarded = p >>= fun a => (f a).guarded := by
  rw [Routine.guarded_bind, h, bind_assoc]
  rfl

theorem Calm.bind {f : α → Routine σ β} (h : Calm p) (hf : ∀ a, Calm (f a)) : Calm (p >>= f) := by
  rw [Calm, h.guarded_bind, bind_assoc]
  exact congrArg (Bind.bind p) (funext hf)

end Calm

/-- A step of a routine is one of its commits, or it leaves the state alone. -/
theorem Commits.step {kind : (σ → σ) → Prop} {p q : Routine σ α} {s s' : σ} (h : Commits kind p)
    (hs : Step p s q s') : Commits kind q ∧ (s' = s ∨ ∃ update, kind update ∧ s' = update s) := by
  cases hs with
  | @commit update next s =>
    cases h with
    | commit hk hn => exact ⟨hn s, Or.inr ⟨update, hk, rfl⟩⟩
  | pause =>
    cases h with
    | pause h => exact ⟨h, Or.inl rfl⟩

section Own

/-- What a routine has of its own goes through a sequence. -/
theorem withOwn_bind (own : τ) (p : Routine (σ × τ) α) (f : α → Routine (σ × τ) β) :
    (p >>= f).withOwn own = p.withOwn own >>= fun (a, own) => (f a).withOwn own := by
  change (p.bind f).withOwn own = (p.withOwn own).bind fun (a, own) => (f a).withOwn own
  induction p generalizing own with
  | done a => rfl
  | crash message => rfl
  | commit update next ih => exact congrArg (commit _) (funext fun s => ih (s, own) _)
  | pause length next ih => exact congrArg (pause length) (ih own)

/-- A part of what a routine has of its own: the rest of it stays as it is. -/
theorem withOwn_within {mine : υ → τ} {put : υ → τ → υ} (h : IsPart mine put) (own : υ)
    (p : Routine (σ × τ) α) :
    (p.within (fun desk : σ × υ => (desk.1, mine desk.2))
        (fun desk scope => (scope.1, put desk.2 scope.2))).withOwn own =
      p.withOwn (mine own) >>= fun (a, part) => pure (a, put own part) := by
  change _ = (p.withOwn (mine own)).bind fun (a, part) => done (a, put own part)
  induction p generalizing own with
  | done a => exact congrArg (fun own => done (a, own)) (h.replace_part own).symm
  | crash message => rfl
  | commit update next ih =>
    refine congrArg (commit _) (funext fun s => ?_)
    refine (ih (s, mine own) _).trans ?_
    rw [h.part_replace]
    simp only [h.replace_replace]
  | pause length next ih => exact congrArg (pause length) (ih own)

/-- Whatever course the routine takes, if it finishes then it leaves this of what it has of its
own. -/
def Leaves (p : Routine (σ × τ) α) (own : τ) (post : α → τ → Prop) : Prop :=
  ∀ pauses a left, Course (p.withOwn own) pauses (.ok (a, left)) → post a left

variable {p : Routine (σ × τ) α} {own : τ} {post : α → τ → Prop}

theorem leaves_pure {a : α} (h : post a own) : Leaves (pure a : Routine (σ × τ) α) own post := by
  intro pauses b left hc
  cases hc with
  | done => exact h

theorem leaves_modify {update : σ × τ → σ × τ} {post : Unit → τ → Prop}
    (h : ∀ s, post () (update (s, own)).2) : Leaves (modify update) own post := by
  intro pauses b left hc
  cases hc with
  | commit s hc =>
    cases hc with
    | done => exact h s

theorem Leaves.bind {f : α → Routine (σ × τ) β} {last : β → τ → Prop} (h : Leaves p own post)
    (hf : ∀ a left, post a left → Leaves (f a) left last) : Leaves (p >>= f) own last := by
  intro pauses b left hc
  rw [withOwn_bind] at hc
  rcases course_bind hc with ⟨message, -, he⟩ | ⟨⟨a, middle⟩, before, after, hp, hlater, -⟩
  · cases he
  · exact hf a middle (h before a middle hp) after b left hlater

theorem leaves_within {mine : υ → τ} {put : υ → τ → υ} (hpart : IsPart mine put) {own : υ}
    {p : Routine (σ × τ) α} {post : α → υ → Prop} (h : ∀ a part, post a (put own part)) :
    Leaves (p.within (fun desk : σ × υ => (desk.1, mine desk.2))
      (fun desk scope => (scope.1, put desk.2 scope.2))) own post := by
  intro pauses a left hc
  rw [withOwn_within hpart] at hc
  rcases course_bind hc with ⟨message, -, he⟩ | ⟨⟨b, part⟩, before, after, -, hlater, -⟩
  · cases he
  · cases hlater with
    | done => exact h a part

end Own
end Automation.Routine
