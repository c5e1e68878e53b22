import Automation.Token
import Mathlib.Data.List.Induction
import Mathlib.Tactic.Common

/-!
# Places in a text

Characters lead away from the place where they start, and the place after the first characters of a
text is told by the line breaks among them.
-/
namespace Automation.Position

/-- Earlier in a text. -/
def Before (a b : Position) : Prop := a.line < b.line ∨ a.line = b.line ∧ a.column < b.column

theorem Before.trans {a b c : Position} (hab : a.Before b) (hbc : b.Before c) : a.Before c := by
  unfold Before at hab hbc ⊢
  omega

theorem before_advance (place : Position) (c : Char) : place.Before (place.advance c) := by
  unfold advance
  split
  · exact Or.inl (Nat.lt_succ_self _)
  · exact Or.inr ⟨rfl, Nat.lt_succ_self _⟩

theorem after_append (place : Position) (chars later : List Char) :
    place.after (chars ++ later) = (place.after chars).after later :=
  List.foldl_append

/-- Characters lead away from where they start. -/
theorem before_after (place : Position) {chars : List Char} (h : chars ≠ []) :
    place.Before (place.after chars) := by
  induction chars generalizing place with
  | nil => exact absurd rfl h
  | cons c rest ih =>
    have hc := before_advance place c
    by_cases hr : rest = []
    · rw [hr]
      exact hc
    · exact hc.trans (ih (place.advance c) hr)

/-- The place after the first characters of a text, counted from its line breaks. -/
theorem start_after (chars : List Char) :
    start.after chars =
      ⟨1 + chars.count '\n', 1 + (chars.reverse.takeWhile (· != '\n')).length⟩ := by
  induction chars using List.reverseRecOn with
  | nil => rfl
  | append_singleton rest c ih =>
    rw [after_append, ih]
    by_cases hc : c = '\n'
    · subst hc
      simp [after, advance, Nat.add_assoc]
    · simp [after, advance, hc, Nat.add_assoc]

end Automation.Position
