import Automation.Number.Reading
import Automation.Proofs.Token.Piece

/-!
# How numerals are read

A numeral has digits only, with at most one point between two of them. It is none of the words that
stand for a number, has no sign and leaves nothing for an exponent, so it is always read, as the
decimal that it writes. A decimal without a sign is no double with one: it is never below zero and
never not-a-number.
-/
namespace Automation.Double

-- The bounds are powers too large to be worked out.
attribute [local irreducible] one limit

/-- A number without a sign; not-a-number is none. -/
def Unsigned : Double → Prop
  | nan => False
  | infinite negative => negative = false
  | finite negative _ => negative = false

theorem Unsigned.ne_nan {d : Double} (h : d.Unsigned) : d ≠ nan := by
  rintro rfl
  exact h

theorem Unsigned.zero_le {d : Double} (h : d.Unsigned) : zero.le d := by
  cases d with
  | nan => cases h
  | infinite negative =>
    cases h
    simp [le, compareBy, position, zero]
  | finite negative units =>
    cases h
    simp [le, compareBy, position, zero]

theorem unsigned_ofUnits (num den : Nat) : (ofUnits false num den).Unsigned := by
  simp only [ofUnits]
  split <;> rfl

theorem unsigned_ofDecimal (digits : Nat) (exponent : Int) :
    (ofDecimal false digits exponent).Unsigned := by
  rw [ofDecimal]
  split
  · rfl
  split
  · rfl
  split
  · rfl
  split
  · exact unsigned_ofUnits _ _
  · exact unsigned_ofUnits _ _

theorem not_isDigit_of_toLower {c : Char} (h : c.toLower.isLower) : c.isDigit = false := by
  by_contra hc
  simp only [Char.isDigit, Bool.not_eq_false, Bool.and_eq_true, decide_eq_true_eq] at hc
  have hle : c.val ≤ 57 := hc.2
  have hupper : ¬ (c.val ≥ 'A'.val ∧ c.val ≤ 'Z'.val) := by
    rintro ⟨ha, -⟩
    exact absurd (UInt32.le_trans ha hle) (by decide)
  rw [Char.toLower, dif_neg hupper] at h
  simp only [Char.isLower, Bool.and_eq_true, decide_eq_true_eq] at h
  exact absurd (UInt32.le_trans h.1 hle) (by decide)

/-- A word for a number starts with a letter, a numeral with a digit. -/
theorem ne_word_of_digit {c d : Char} {rest word : List Char} (hc : c.isDigit) (hd : d.isLower) :
    (c :: rest).map Char.toLower ≠ d :: word := by
  intro he
  obtain ⟨rfl, -⟩ := List.cons.inj he
  rw [not_isDigit_of_toLower hd] at hc
  cases hc

/-- Digits up to the end or to a point, after which there are digits only. -/
theorem magnitude?_of_cut {negative : Bool} {c : Char} {rest whole fraction : List Char}
    (hc : c.isDigit) (hwhole : (c :: rest).takeWhile Char.isDigit = whole)
    (hrest : (c :: rest).dropWhile Char.isDigit = [] ∧ fraction = [] ∨
      (c :: rest).dropWhile Char.isDigit = '.' :: fraction ∧ ∀ d ∈ fraction, d.isDigit) :
    magnitude? negative (c :: rest) =
      some (ofDecimal negative (digitsValue (whole ++ fraction)) (-fraction.length)) := by
  have hne : whole.isEmpty = false := by
    rw [← hwhole, List.takeWhile_cons_of_pos hc, List.isEmpty_cons]
  rw [magnitude?.eq_def]
  split
  · next hw => exact absurd hw (ne_word_of_digit hc (by decide))
  · next hw => exact absurd hw (ne_word_of_digit hc (by decide))
  · next hw => exact absurd hw (ne_word_of_digit hc (by decide))
  · rcases hrest with ⟨hdrop, rfl⟩ | ⟨hdrop, hf⟩
    · simp [hwhole, hdrop, hne, exponentOf?]
    · have htake : fraction.takeWhile Char.isDigit = fraction := List.takeWhile_eq_self_iff.mpr hf
      have hend : fraction.dropWhile Char.isDigit = [] := List.dropWhile_eq_nil_iff.mpr hf
      simp [hwhole, hdrop, hne, htake, hend, exponentOf?]

/-- Nothing that starts with a digit has a sign. -/
theorem ofChars?_of_digit {c : Char} {rest : List Char} (h : c.isDigit) :
    ofChars? (c :: rest) = magnitude? false (c :: rest) := by
  rw [ofChars?.eq_def]
  split
  · next he => cases he; exact absurd h (by decide)
  · next he => cases he; exact absurd h (by decide)
  · rfl

/-- Every numeral is read. -/
theorem ofChars?_numeral {chars : List Char} (h : Token.IsNumeral chars) :
    ∃ digits exponent, ofChars? chars = some (ofDecimal false digits exponent) := by
  obtain ⟨c, rest, rfl⟩ := List.exists_cons_of_ne_nil h.ne_nil
  have hc := h.head
  rw [ofChars?_of_digit hc]
  generalize hall : c :: rest = all at h
  cases h with
  | whole h =>
    have htake : all.takeWhile Char.isDigit = all := List.takeWhile_eq_self_iff.mpr h.2
    have hdrop : all.dropWhile Char.isDigit = [] := List.dropWhile_eq_nil_iff.mpr h.2
    subst hall
    exact ⟨_, _, magnitude?_of_cut hc htake (Or.inl ⟨hdrop, rfl⟩)⟩
  | @decimal whole fraction hw hf =>
    have htake : (whole ++ '.' :: fraction).takeWhile Char.isDigit = whole := by
      rw [List.takeWhile_append_of_pos hw.2, List.takeWhile_cons_of_neg (by decide),
        List.append_nil]
    have hdrop : (whole ++ '.' :: fraction).dropWhile Char.isDigit = '.' :: fraction := by
      rw [List.dropWhile_append_of_pos hw.2, List.dropWhile_cons_of_neg (by decide)]
    rw [← hall] at htake hdrop ⊢
    exact ⟨_, _, magnitude?_of_cut hc htake (Or.inr ⟨hdrop, hf.2⟩)⟩

end Automation.Double
