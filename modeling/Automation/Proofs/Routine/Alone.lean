import Automation.Routine
import Mathlib

/-!
# Routines that have the state to themselves

How the ending of a routine is put together from the endings of its parts: of one routine after
another, of a routine on a part of the state, and of a routine with something of its own. Where only
the result and the state count, it is enough what the parts give. Two endings agree if both finish
or both crash with one message, and the pauses between are the same but for pauses of no length.
Agreement goes through a sequence step by step, so two routines that do the same in steps of their
own need only be compared step by step.
-/
namespace Automation

/-- Pauses that take time. -/
def Duration.Lasts (d : Duration) : Prop := d.nanos ≠ 0

instance : DecidablePred Duration.Lasts := fun d => inferInstanceAs (Decidable (d.nanos ≠ 0))

namespace Routine

variable {σ τ υ α β γ δ : Type}

namespace Ending

/-- What becomes of a routine whose first part ended so. -/
def andThen (ending : Ending σ α) (next : α → σ → Ending σ β) : Ending σ β :=
  match ending.outcome with
  | .ok a =>
    let later := next a ending.state
    { later with pauses := ending.pauses ++ later.pauses }
  | .error message => ⟨.error message, ending.state, ending.pauses⟩

@[simp] theorem andThen_ok (a : α) (s : σ) (pauses : List Duration) (next : α → σ → Ending σ β) :
    andThen ⟨.ok a, s, pauses⟩ next =
      ⟨(next a s).outcome, (next a s).state, pauses ++ (next a s).pauses⟩ := rfl

end Ending

@[simp] theorem runAlone_pure (a : α) (s : σ) :
    (pure a : Routine σ α).runAlone s = ⟨.ok a, s, []⟩ := rfl

@[simp] theorem runAlone_modify (update : σ → σ) (s : σ) :
    (modify update).runAlone s = ⟨.ok (), update s, []⟩ := rfl

@[simp] theorem runAlone_sleep (length : Duration) (s : σ) :
    (sleep length).runAlone s = ⟨.ok (), s, [length]⟩ := rfl

theorem runAlone_bind (p : Routine σ α) (f : α → Routine σ β) (s : σ) :
    (p >>= f).runAlone s = (p.runAlone s).andThen fun a s => (f a).runAlone s := by
  change (p.bind f).runAlone s = _
  induction p generalizing s with
  | done a => rfl
  | crash message => rfl
  | commit update next ih => exact ih s (update s)
  | pause length next ih =>
    simp only [Routine.bind, runAlone, ih]
    generalize next.runAlone s = ending
    obtain ⟨outcome, state, pauses⟩ := ending
    cases outcome <;> rfl

/-- A commit before a routine. -/
theorem runAlone_modify_bind (update : σ → σ) (f : Unit → Routine σ α) (s : σ) :
    (modify update >>= f).runAlone s = (f ()).runAlone (update s) := rfl

/-- A part of a state that can be replaced without touching the rest. -/
structure IsPart (part : τ → σ) (replace : τ → σ → τ) : Prop where
  part_replace : ∀ t s, part (replace t s) = s
  replace_part : ∀ t, replace t (part t) = t
  replace_replace : ∀ t s later, replace (replace t s) later = replace t later

theorem runAlone_within {part : τ → σ} {replace : τ → σ → τ} (h : IsPart part replace)
    (p : Routine σ α) (t : τ) :
    (p.within part replace).runAlone t =
      ⟨(p.runAlone (part t)).outcome, replace t (p.runAlone (part t)).state,
        (p.runAlone (part t)).pauses⟩ := by
  induction p generalizing t with
  | done a => simp [within, runAlone, h.replace_part]
  | crash message => simp [within, runAlone, h.replace_part]
  | commit update next ih =>
    rw [within, runAlone, ih, h.part_replace, h.replace_replace]
    rfl
  | pause length next ih =>
    rw [within, runAlone, ih]
    rfl

theorem runAlone_withOwn (own : τ) (p : Routine (σ × τ) α) (s : σ) :
    (p.withOwn own).runAlone s =
      ⟨(p.runAlone (s, own)).outcome.map fun a => (a, (p.runAlone (s, own)).state.2),
        (p.runAlone (s, own)).state.1, (p.runAlone (s, own)).pauses⟩ := by
  induction p generalizing s own with
  | done a => rfl
  | crash message => rfl
  | commit update next ih =>
    rw [withOwn, runAlone, ih]
    rfl
  | pause length next ih =>
    rw [withOwn, runAlone, ih]
    rfl

/-- A routine that never crashes when it has the state to itself. -/
def Finishes (p : Routine σ α) : Prop := ∀ s, ∃ a, (p.runAlone s).outcome = .ok a

/-- A routine that has the state to itself finishes with a result and leaves a state. -/
def Gives (p : Routine σ α) (s : σ) (a : α) (left : σ) : Prop :=
  (p.runAlone s).outcome = .ok a ∧ (p.runAlone s).state = left

theorem Finishes.exists_gives {p : Routine σ α} (h : p.Finishes) (s : σ) :
    ∃ a left, Gives p s a left := by
  obtain ⟨a, ha⟩ := h s
  exact ⟨a, _, ha, rfl⟩

namespace Gives

theorem pure (a : α) (s : σ) : Gives (pure a) s a s := ⟨rfl, rfl⟩

theorem modify (update : σ → σ) (s : σ) : Gives (modify update) s () (update s) := ⟨rfl, rfl⟩

theorem sleep (length : Duration) (s : σ) : Gives (sleep length) s () s := ⟨rfl, rfl⟩

theorem bind {p : Routine σ α} {f : α → Routine σ β} {s between left : σ} {a : α} {b : β}
    (h : Gives p s a between) (hf : Gives (f a) between b left) : Gives (p >>= f) s b left := by
  rw [Gives, runAlone_bind, Ending.andThen, h.1, h.2]
  exact hf

theorem within {part : τ → σ} {replace : τ → σ → τ} (hpart : IsPart part replace)
    {p : Routine σ α} {t : τ} {a : α} {left : σ} (h : Gives p (part t) a left) :
    Gives (p.within part replace) t a (replace t left) := by
  rw [Gives, runAlone_within hpart]
  exact ⟨h.1, congrArg (replace t) h.2⟩

theorem withOwn {own kept : τ} {p : Routine (σ × τ) α} {s left : σ} {a : α}
    (h : Gives p (s, own) a (left, kept)) : Gives (p.withOwn own) s (a, kept) left := by
  rw [Gives, runAlone_withOwn, h.1, h.2]
  exact ⟨rfl, rfl⟩

end Gives

/-- Two endings that agree. What is asked of the results and the states is given for both ways to
end. -/
inductive Agree (finished : α → σ → β → τ → Prop) (crashed : σ → τ → Prop) :
    Ending σ α → Ending τ β → Prop where
  | finished {a : α} {b : β} {s : σ} {t : τ} {pauses others : List Duration}
      (h : finished a s b t) (hp : pauses.filter Duration.Lasts = others.filter Duration.Lasts) :
      Agree finished crashed ⟨.ok a, s, pauses⟩ ⟨.ok b, t, others⟩
  | crashed {message : String} {s : σ} {t : τ} {pauses others : List Duration}
      (h : crashed s t) (hp : pauses.filter Duration.Lasts = others.filter Duration.Lasts) :
      Agree finished crashed ⟨.error message, s, pauses⟩ ⟨.error message, t, others⟩

namespace Agree

variable {finished : α → σ → β → τ → Prop} {crashed : σ → τ → Prop}

theorem mono {other : α → σ → β → τ → Prop} {e : Ending σ α} {f : Ending τ β}
    (h : Agree finished crashed e f) (hf : ∀ a s b t, finished a s b t → other a s b t) :
    Agree other crashed e f := by
  cases h with
  | finished h hp => exact .finished (hf _ _ _ _ h) hp
  | crashed h hp => exact .crashed h hp

/-- Agreement goes through a sequence. -/
theorem andThen {later : γ → σ → δ → τ → Prop} {e : Ending σ α} {f : Ending τ β}
    {next : α → σ → Ending σ γ} {follow : β → τ → Ending τ δ} (h : Agree finished crashed e f)
    (hn : ∀ a s b t, finished a s b t → Agree later crashed (next a s) (follow b t)) :
    Agree later crashed (e.andThen next) (f.andThen follow) := by
  cases h with
  | crashed h hp => exact .crashed h hp
  | @finished a b s t pauses others h hp =>
    have hnext := hn a s b t h
    rw [Ending.andThen_ok, Ending.andThen_ok]
    generalize next a s = e at hnext
    generalize follow b t = f at hnext
    cases hnext with
    | finished h hp' => exact .finished h (by simp [hp, hp'])
    | crashed h hp' => exact .crashed h (by simp [hp, hp'])

/-- What one side does on its own at the end, without a pause. -/
theorem follow {later : α → σ → δ → τ → Prop} {e : Ending σ α} {f : Ending τ β}
    {next : β → τ → Ending τ δ} (h : Agree finished crashed e f)
    (hn : ∀ a s b t, finished a s b t → ∃ d t', next b t = ⟨.ok d, t', []⟩ ∧ later a s d t') :
    Agree later crashed e (f.andThen next) := by
  cases h with
  | crashed h hp => exact .crashed h hp
  | @finished a b s t pauses others h hp =>
    obtain ⟨d, t', he, hl⟩ := hn a s b t h
    rw [Ending.andThen_ok, he]
    exact .finished hl (by simpa using hp)

/-- Agreement with a routine on a part of the state. -/
theorem within {part : υ → τ} {replace : υ → τ → υ} (hpart : IsPart part replace) {e : Ending σ α}
    {p : Routine τ β} {u : υ} (h : Agree finished crashed e (p.runAlone (part u))) :
    Agree (fun a s b u => finished a s b (part u)) (fun s u => crashed s (part u)) e
      ((p.within part replace).runAlone u) := by
  rw [runAlone_within hpart]
  generalize p.runAlone (part u) = ending at h
  cases h with
  | @finished a b s t pauses others h hp =>
    exact .finished (by rwa [hpart.part_replace]) hp
  | @crashed message s t pauses others h hp =>
    exact .crashed (by rwa [hpart.part_replace]) hp

/-- Pauses of no length do not count in a sum of times. -/
theorem sum_map_lasts {count : Duration → Nat} (hc : ∀ d : Duration, d.nanos = 0 → count d = 0)
    (pauses : List Duration) :
    ((pauses.filter Duration.Lasts).map count).sum = (pauses.map count).sum := by
  induction pauses with
  | nil => rfl
  | cons d rest ih =>
    by_cases hd : d.nanos = 0
    · rw [List.filter_cons_of_neg (by simp [Duration.Lasts, hd]), ih, List.map_cons, List.sum_cons,
        hc d hd, Nat.zero_add]
    · rw [List.filter_cons_of_pos (by simp [Duration.Lasts, hd]), List.map_cons, List.sum_cons, ih,
        List.map_cons, List.sum_cons]

theorem pauses_eq {e : Ending σ α} {f : Ending τ β} (h : Agree finished crashed e f) :
    e.pauses.filter Duration.Lasts = f.pauses.filter Duration.Lasts := by
  cases h with
  | finished h hp => exact hp
  | crashed h hp => exact hp

/-- Endings that agree took the same time. -/
theorem nanos_eq {e : Ending σ α} {f : Ending τ β} (h : Agree finished crashed e f) :
    (e.pauses.map Duration.nanos).sum = (f.pauses.map Duration.nanos).sum := by
  have hz : ∀ d : Duration, d.nanos = 0 → d.nanos = 0 := fun _ hd => hd
  rw [← sum_map_lasts hz, h.pauses_eq, sum_map_lasts hz]

theorem elapsed_eq {e : Ending σ α} {f : Ending τ β} (h : Agree finished crashed e f) :
    e.elapsed = f.elapsed := by
  have hz : ∀ d : Duration, d.nanos = 0 → d.fullMillis = 0 := by
    intro d hd
    simp [Duration.fullMillis, hd]
  rw [Ending.elapsed, Ending.elapsed, ← List.sum_eq_foldr, ← List.sum_eq_foldr, ← sum_map_lasts hz,
    h.pauses_eq, sum_map_lasts hz]

end Agree
end Routine
end Automation
