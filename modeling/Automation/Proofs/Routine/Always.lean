import Automation.Proofs.Routine.Course

/-!
# Routines that are sure to finish

A routine with something of its own finishes for sure if none of its courses crashes, whatever
others do to the state. Where `Leaves` says what is left if the routine finishes, `Always` says that
it does as well. Both go through a sequence, and from a part of what a routine has of its own to the
whole.
-/
namespace Automation.Routine

variable {σ τ υ α β : Type} {p : Routine (σ × τ) α} {own : τ} {post : α → τ → Prop}

/-- Whatever course the routine takes, it finishes and leaves this of what it has of its own. -/
def Always (p : Routine (σ × τ) α) (own : τ) (post : α → τ → Prop) : Prop :=
  ∀ pauses ending, Course (p.withOwn own) pauses ending →
    ∃ a left, ending = .ok (a, left) ∧ post a left

theorem always_pure {a : α} (h : post a own) : Always (pure a : Routine (σ × τ) α) own post := by
  intro pauses ending hc
  cases hc with
  | done => exact ⟨a, own, rfl, h⟩

theorem always_modify {update : σ × τ → σ × τ} {post : Unit → τ → Prop}
    (h : ∀ s, post () (update (s, own)).2) : Always (modify update) own post := by
  intro pauses ending hc
  cases hc with
  | commit s hc =>
    cases hc with
    | done => exact ⟨(), _, rfl, h s⟩

theorem Always.bind {f : α → Routine (σ × τ) β} {last : β → τ → Prop} (h : Always p own post)
    (hf : ∀ a left, post a left → Always (f a) left last) : Always (p >>= f) own last := by
  intro pauses ending hc
  rw [withOwn_bind] at hc
  rcases course_bind hc with ⟨message, hp, -⟩ | ⟨⟨a, middle⟩, before, after, hp, hlater, -⟩
  · obtain ⟨_, _, he, -⟩ := h _ _ hp
    cases he
  · obtain ⟨b, left, he, hpost⟩ := h before _ hp
    cases he
    exact hf a middle hpost after ending hlater

theorem Always.mono {wide : α → τ → Prop} (h : Always p own post)
    (hw : ∀ a left, post a left → wide a left) : Always p own wide := by
  intro pauses ending hc
  obtain ⟨a, left, he, hpost⟩ := h pauses ending hc
  exact ⟨a, left, he, hw a left hpost⟩

section Part

variable {mine : υ → τ} {put : υ → τ → υ} {whole : υ} {last : α → υ → Prop}

theorem Always.within (hpart : IsPart mine put) (h : Always p (mine whole) post)
    (hl : ∀ a part, post a part → last a (put whole part)) :
    Always (p.within (fun desk : σ × υ => (desk.1, mine desk.2))
      (fun desk scope => (scope.1, put desk.2 scope.2))) whole last := by
  intro pauses ending hc
  rw [withOwn_within hpart] at hc
  rcases course_bind hc with ⟨message, hp, -⟩ | ⟨⟨a, part⟩, before, after, hp, hlater, -⟩
  · obtain ⟨_, _, he, -⟩ := h _ _ hp
    cases he
  · obtain ⟨b, left, he, hpost⟩ := h before _ hp
    cases he
    cases hlater with
    | done => exact ⟨a, _, rfl, hl a part hpost⟩

theorem Leaves.within (hpart : IsPart mine put) (h : Leaves p (mine whole) post)
    (hl : ∀ a part, post a part → last a (put whole part)) :
    Leaves (p.within (fun desk : σ × υ => (desk.1, mine desk.2))
      (fun desk scope => (scope.1, put desk.2 scope.2))) whole last := by
  intro pauses a left hc
  rw [withOwn_within hpart] at hc
  rcases course_bind hc with ⟨message, -, he⟩ | ⟨⟨b, part⟩, before, after, hp, hlater, -⟩
  · cases he
  · cases hlater with
    | done => exact hl a part (h before a part hp)

end Part

theorem leaves_pause {length : Duration} (h : Leaves p own post) :
    Leaves (pause length p) own post := by
  intro pauses a left hc
  cases hc with
  | pause hc => exact h _ a left hc

/-- Nothing is asked of what the routine leaves. -/
theorem leaves_anything (p : Routine (σ × τ) α) (own : τ) : Leaves p own fun _ _ => True :=
  fun _ _ _ _ => trivial

end Automation.Routine
