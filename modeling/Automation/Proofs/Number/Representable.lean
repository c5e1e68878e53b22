import Automation.Number.Reading
import Automation.Time.Duration
import Mathlib

/-!
# Representable numbers

Not every multiple of the least double is a double: at most 53 binary digits may stand before its
trailing zeros. Whatever is rounded to a double or read from a text is representable, and what is
representable rounds to itself. So a whole number comes back from its integer as it was, but for
the sign of a zero, and that sign does not count in a length of time.
-/
namespace Automation.Double

-- The bounds are powers too large to be worked out.
attribute [local irreducible] one limit

/-- What the multiple of a finite double is like: it lies on the grid of its own size. -/
def Representable : Double → Prop
  | finite _ units => units < limit ∧ grain units ∣ units
  | _ => True

theorem bitLength_le_iff {n k : Nat} : bitLength n ≤ k ↔ n < 2 ^ k := by
  rw [bitLength]
  split
  · next hn =>
    subst hn
    exact iff_of_true (Nat.zero_le _) (Nat.two_pow_pos k)
  · next hn =>
    rw [← Nat.log2_lt hn]
    omega

theorem grain_pos (units : Nat) : 0 < grain units := Nat.two_pow_pos _

/-- The grid of a multiple is wide enough for its digits. -/
theorem lt_grain_mul (units : Nat) : units < grain units * 2 ^ 53 := by
  have hlt : units < 2 ^ bitLength units := bitLength_le_iff.mp (Nat.le_refl _)
  have hle : 2 ^ bitLength units ≤ 2 ^ (bitLength units - 53 + 53) :=
    Nat.pow_le_pow_right (by decide) (by omega)
  rw [grain, Nat.pow_eq, ← Nat.pow_add]
  exact Nat.lt_of_lt_of_le hlt hle

/-- A multiple with few enough digits lies on its grid; one more than the largest of them does, as
its last digit is a zero. -/
theorem grain_dvd {digits : Nat} (e : Nat) (hd : digits ≤ 2 ^ 53) :
    grain (digits * 2 ^ e) ∣ digits * 2 ^ e := by
  rcases Nat.lt_or_eq_of_le hd with hlt | rfl
  · have hb : bitLength (digits * 2 ^ e) ≤ 53 + e := by
      rw [bitLength_le_iff, Nat.pow_add]
      exact Nat.mul_lt_mul_of_pos_right hlt (Nat.two_pow_pos e)
    have hg : grain (digits * 2 ^ e) ∣ 2 ^ e := Nat.pow_dvd_pow 2 (by omega)
    exact Nat.dvd_mul_left_of_dvd hg digits
  · rw [← Nat.pow_add]
    have hb : bitLength (2 ^ (53 + e)) ≤ 53 + e + 1 := by
      rw [bitLength_le_iff]
      exact Nat.pow_lt_pow_right (by decide) (by omega)
    exact Nat.pow_dvd_pow 2 (by omega)

theorem divRound_le (num den : Nat) : divRound num den ≤ num / den + 1 := by
  simp only [divRound]
  split
  · omega
  · split <;> omega

theorem divRound_mul {den : Nat} (hd : 0 < den) (n : Nat) : divRound (n * den) den = n := by
  simp [divRound, Nat.mul_div_cancel n hd, hd]

/-- What is rounded to a double is representable. -/
theorem representable_ofUnits (negative : Bool) (num den : Nat) :
    (ofUnits negative num den).Representable := by
  have hq : num / (den * grain (num / den)) < 2 ^ 53 := by
    rw [← Nat.div_div_eq_div_mul]
    exact Nat.div_lt_of_lt_mul (lt_grain_mul _)
  have hr : divRound num (den * grain (num / den)) ≤ 2 ^ 53 :=
    Nat.le_trans (divRound_le _ _) hq
  by_cases hlt : divRound num (den * grain (num / den)) * grain (num / den) < limit
  · simp only [ofUnits, if_pos hlt]
    exact ⟨hlt, grain_dvd _ hr⟩
  · simp only [ofUnits, if_neg hlt]
    exact trivial

theorem limit_pos : 0 < limit := by
  rw [limit]
  apply Nat.two_pow_pos

theorem representable_zero (negative : Bool) : (finite negative 0).Representable :=
  ⟨limit_pos, Nat.dvd_zero _⟩

theorem representable_ofDecimal (negative : Bool) (digits : Nat) (exponent : Int) :
    (ofDecimal negative digits exponent).Representable := by
  rw [ofDecimal]
  by_cases hd : digits = 0
  · rw [if_pos hd]
    exact representable_zero negative
  rw [if_neg hd]
  by_cases hlarge : 400 < exponent
  · rw [if_pos hlarge]
    exact trivial
  rw [if_neg hlarge]
  by_cases hsmall : exponent + (bitLength digits : Int) < -400
  · rw [if_pos hsmall]
    exact representable_zero negative
  rw [if_neg hsmall]
  by_cases he : 0 ≤ exponent
  · rw [if_pos he]
    exact representable_ofUnits _ _ _
  · rw [if_neg he]
    exact representable_ofUnits _ _ _

theorem representable_of_magnitude? {negative : Bool} {chars : List Char} {d : Double}
    (h : magnitude? negative chars = some d) : d.Representable := by
  rw [magnitude?.eq_def] at h
  split at h
  · cases h; exact trivial
  · cases h; exact trivial
  · cases h; exact trivial
  · obtain ⟨-, exponent, -, rfl⟩ := by simpa [Option.map_eq_some_iff] using h
    exact representable_ofDecimal _ _ _

/-- What is read from a text is representable. -/
theorem representable_of_text {text : String} {d : Double} (h : ofText? text = some d) :
    d.Representable := by
  rw [ofText?, ofChars?.eq_def] at h
  split at h
  · exact representable_of_magnitude? h
  · exact representable_of_magnitude? h
  · exact representable_of_magnitude? h

/-- What is representable rounds to itself. -/
theorem ofUnits_of_representable {negative other : Bool} {units : Nat}
    (h : (finite other units).Representable) :
    ofUnits negative units 1 = finite negative units := by
  obtain ⟨hlt, n, hn⟩ := h
  have hround : divRound units (grain units) * grain units = units := by
    have hdiv : divRound units (grain units) = n := by
      conv_lhs => arg 1; rw [hn, Nat.mul_comm]
      exact divRound_mul (grain_pos units) n
    rw [hdiv, Nat.mul_comm]
    exact hn.symm
  simp only [ofUnits, Nat.div_one, Nat.one_mul, hround, if_pos hlt]

/-- A whole number with its sign and size. -/
theorem natAbs_of_whole? {negative : Bool} {units : Nat} {n : Int}
    (h : (finite negative units).whole? = some n) :
    n.natAbs * one = units ∧ (n < 0 ↔ negative = true ∧ units ≠ 0) := by
  simp only [whole?, truncated, Option.ite_none_right_eq_some, Option.some.injEq] at h
  obtain ⟨hmod, rfl⟩ := h
  have hmul : units / one * one = units := Nat.div_mul_cancel (Nat.dvd_of_mod_eq_zero hmod)
  have hzero : units / one = 0 ↔ units = 0 := by
    constructor
    · intro hz
      rw [← hmul, hz, Nat.zero_mul]
    · rintro rfl
      exact Nat.zero_div one
  generalize units / one = magnitude at hmul hzero
  cases negative with
  | true =>
    rw [if_pos rfl, Int.natAbs_neg, Int.natAbs_natCast]
    refine ⟨hmul, ?_⟩
    simp only [true_and, ne_eq, ← hzero]
    omega
  | false =>
    rw [if_neg Bool.false_ne_true, Int.natAbs_natCast]
    exact ⟨hmul, by simp⟩

/-- A whole number comes back from its integer, but for the sign of a zero. -/
theorem ofInt_of_whole? {negative : Bool} {units : Nat} {n : Int}
    (h : (finite negative units).Representable) (hw : (finite negative units).whole? = some n) :
    ofInt n = finite (negative && units ≠ 0) units := by
  obtain ⟨habs, hneg⟩ := natAbs_of_whole? hw
  have hsign : decide (n < 0) = (negative && units ≠ 0) := by
    rw [Bool.eq_iff_iff]
    simpa using hneg
  rw [ofInt, habs, hsign]
  exact ofUnits_of_representable h

end Automation.Double

namespace Automation.Duration

open Double in
/-- The sign of a zero makes no difference to a length of time. -/
theorem ofSeconds?_unsigned (negative : Bool) (units : Nat) :
    ofSeconds? (finite (negative && units ≠ 0) units) = ofSeconds? (finite negative units) := by
  by_cases hz : units = 0
  · simp [ofSeconds?, hz]
  · simp [hz]

/-- A length of time can be given as an integer as well. -/
theorem ofSeconds?_ofInt {d : Double} {n : Int} (h : d.Representable) (hw : d.whole? = some n) :
    ofSeconds? (Double.ofInt n) = ofSeconds? d := by
  cases d with
  | nan => cases hw
  | infinite negative => cases hw
  | finite negative units => rw [Double.ofInt_of_whole? h hw, ofSeconds?_unsigned]

end Automation.Duration
