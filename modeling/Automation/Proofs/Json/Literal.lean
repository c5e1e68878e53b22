import Automation.Json.Document
import Automation.Json.Printer
import Mathlib

/-!
# Printed numbers

A number literal ends where no digit, point or exponent follows. An integer that fits 64 bits comes
back from its digits. A double comes back if its shortest digits are read as the same double.
-/
namespace Automation

/-- A double that comes back from the text that it is printed as. -/
def Double.ReadsBack (d : Double) : Prop :=
  ∃ l, Json.Literal.read? (Json.doubleText d).toList = some (l, []) ∧ l.value? = some (.real d)

/-- Whether the text of a double is read as the double. -/
def Double.comesBack (d : Double) : Bool :=
  match Json.Literal.read? (Json.doubleText d).toList with
  | some (l, []) =>
    match l.value? with
    | some (.real read) => read = d
    | _ => false
  | _ => false

theorem Double.readsBack_iff {d : Double} : d.ReadsBack ↔ d.comesBack = true := by
  constructor
  · rintro ⟨l, hread, hvalue⟩
    simp only [comesBack, hread, hvalue, decide_true]
  · intro h
    rw [comesBack] at h
    split at h
    · next l hread =>
      split at h
      · next read hvalue => exact ⟨l, hread, (of_decide_eq_true h) ▸ hvalue⟩
      · cases h
    · cases h

instance (d : Double) : Decidable d.ReadsBack := decidable_of_iff _ Double.readsBack_iff.symm

namespace Json

/-- A text before which a number literal ends. -/
def Stops (rest : List Char) : Prop :=
  ∀ c, rest.head? = some c → c.isDigit = false ∧ c ≠ '.' ∧ c ≠ 'e' ∧ c ≠ 'E'

theorem stops_cons {c : Char} {rest : List Char}
    (h : c.isDigit = false ∧ c ≠ '.' ∧ c ≠ 'e' ∧ c ≠ 'E') : Stops (c :: rest) := by
  intro other he
  rwa [← Option.some.inj he]

namespace Literal

section Append

variable {chars rest later : List Char}

theorem takeWhile_stop {p : Char → Bool} (h : ∀ c, rest.head? = some c → p c = false)
    (chars : List Char) : (chars ++ rest).takeWhile p = chars.takeWhile p := by
  induction chars with
  | nil =>
    cases rest with
    | nil => rfl
    | cons c rest => exact List.takeWhile_cons_of_neg (by rw [h c rfl]; decide)
  | cons c chars ih => rw [List.cons_append, List.takeWhile_cons, List.takeWhile_cons, ih]

theorem dropWhile_stop {p : Char → Bool} (h : ∀ c, rest.head? = some c → p c = false)
    (chars : List Char) : (chars ++ rest).dropWhile p = chars.dropWhile p ++ rest := by
  induction chars with
  | nil =>
    cases rest with
    | nil => rfl
    | cons c rest => exact List.dropWhile_cons_of_neg (by rw [h c rfl]; decide)
  | cons c chars ih =>
    rw [List.cons_append, List.dropWhile_cons, List.dropWhile_cons, ih]
    split <;> rfl

theorem fraction?_append {after : Option (List Char)} (hs : Stops rest)
    (h : fraction? chars = some (after, later)) :
    fraction? (chars ++ rest) = some (after, later ++ rest) := by
  have hdigit : ∀ c, rest.head? = some c → c.isDigit = false := fun c hc => (hs c hc).1
  have hnone : ∀ {c more}, c ≠ '.' → fraction? (c :: more) = some (none, c :: more) := by
    intro c more hc
    unfold fraction?
    split
    · next he => exact absurd (List.cons.inj he).1 hc
    · rfl
  cases chars with
  | nil =>
    obtain ⟨rfl, rfl⟩ := Prod.mk.inj (Option.some.inj h)
    cases rest with
    | nil => rfl
    | cons c rest => exact hnone (hs c rfl).2.1
  | cons c chars =>
    by_cases hc : c = '.'
    · subst hc
      rw [fraction?] at h
      rw [List.cons_append, fraction?, takeWhile_stop hdigit, dropWhile_stop hdigit]
      split at h
      · cases h
      · next hne =>
        rw [if_neg hne]
        obtain ⟨rfl, rfl⟩ := Prod.mk.inj (Option.some.inj h)
        rfl
    · rw [hnone hc] at h
      obtain ⟨rfl, rfl⟩ := Prod.mk.inj (Option.some.inj h)
      exact hnone hc

theorem exponentSign_append (c : Char) (more rest : List Char) :
    exponentSign (c :: more ++ rest) =
      ((exponentSign (c :: more)).1, (exponentSign (c :: more)).2 ++ rest) := by
  by_cases hplus : c = '+'
  · rw [hplus]
    rfl
  · by_cases hminus : c = '-'
    · rw [hminus]
      rfl
    · simp [exponentSign, hplus, hminus]

theorem minus_append (c : Char) (more rest : List Char) :
    minus (c :: more ++ rest) = ((minus (c :: more)).1, (minus (c :: more)).2 ++ rest) := by
  by_cases hminus : c = '-'
  · rw [hminus]
    rfl
  · simp [minus, hminus]

theorem exponent?_append {exponent : Option Int} (hs : Stops rest)
    (h : exponent? chars = some (exponent, later)) :
    exponent? (chars ++ rest) = some (exponent, later ++ rest) := by
  have hdigit : ∀ c, rest.head? = some c → c.isDigit = false := fun c hc => (hs c hc).1
  cases chars with
  | nil =>
    obtain ⟨rfl, rfl⟩ := Prod.mk.inj (Option.some.inj h)
    cases rest with
    | nil => rfl
    | cons c rest =>
      obtain ⟨-, -, he, hE⟩ := hs c rfl
      rw [List.nil_append, exponent?, if_neg (by simp [he, hE])]
  | cons c chars =>
    rw [exponent?] at h
    rw [List.cons_append, exponent?]
    split at h
    · next hc =>
      rw [if_pos hc]
      cases chars with
      | nil => cases h
      | cons d chars =>
        rcases hsign : exponentSign (d :: chars) with ⟨sign, digits⟩
        rw [exponentSign_append, hsign]
        rw [hsign] at h
        simp only [takeWhile_stop hdigit, dropWhile_stop hdigit] at h ⊢
        split at h
        · cases h
        · next hne =>
          rw [if_neg hne]
          obtain ⟨rfl, rfl⟩ := Prod.mk.inj (Option.some.inj h)
          rfl
    · next hc =>
      rw [if_neg hc]
      obtain ⟨rfl, rfl⟩ := Prod.mk.inj (Option.some.inj h)
      rfl

/-- A literal is the same whatever follows it. -/
theorem read?_append {l : Literal} (hs : Stops rest) (h : read? chars = some (l, later)) :
    read? (chars ++ rest) = some (l, later ++ rest) := by
  have hdigit : ∀ c, rest.head? = some c → c.isDigit = false := fun c hc => (hs c hc).1
  cases chars with
  | nil => cases h
  | cons c chars =>
    unfold read? at h ⊢
    rcases hminus : minus (c :: chars) with ⟨negative, digits⟩
    rw [minus_append, hminus]
    rw [hminus] at h
    simp only [takeWhile_stop hdigit, dropWhile_stop hdigit] at h ⊢
    split at h
    · cases h
    · next hne =>
      rw [if_neg hne]
      simp only [Option.bind_eq_bind, Option.bind_eq_some_iff] at h ⊢
      obtain ⟨⟨after, afterPoint⟩, hfraction, ⟨exponent, afterExponent⟩, hexponent, he⟩ := h
      obtain ⟨rfl, rfl⟩ := Prod.mk.inj (Option.some.inj he)
      exact ⟨_, fraction?_append hs hfraction, _, exponent?_append hs hexponent, rfl⟩

end Append

theorem digitsValue_toDigits (n : Nat) : Double.digitsValue (Nat.toDigits 10 n) = n := by
  have hfold : ∀ (digits : List Char) (init : Nat),
      digits.foldl (fun value c => value * 10 + (c.toNat - 48)) init =
        Nat.ofDigitChars 10 digits init := by
    intro digits
    induction digits with
    | nil => exact fun _ => rfl
    | cons c digits ih =>
      intro init
      rw [List.foldl_cons, ih, Nat.mul_comm]
      rfl
  rw [Double.digitsValue, hfold]
  exact Nat.ofDigitChars_toDigits (by decide) (by decide)

theorem head?_digit : ∀ n < 10, n ≠ 0 → Nat.digitChar n ≠ '0' := by decide

/-- Only zero starts with a zero. -/
theorem head?_toDigits {n : Nat} (h : n ≠ 0) : (Nat.toDigits 10 n).head? ≠ some '0' := by
  induction n using Nat.strongRecOn with
  | ind n ih =>
    by_cases hlt : n < 10
    · rw [Nat.toDigits_of_lt_base hlt]
      exact fun he => head?_digit n hlt h (Option.some.inj he)
    · have hle : 10 ≤ n := Nat.le_of_not_lt hlt
      have hfirst := ih (n / 10) (by omega) (by omega)
      obtain ⟨c, more, hdigits⟩ := List.exists_cons_of_ne_nil (@Nat.toDigits_ne_nil (n / 10) 10)
      rw [hdigits] at hfirst
      rw [Nat.toDigits_of_base_le (by decide) hle, hdigits]
      exact hfirst

theorem minus_toDigits (n : Nat) : minus (Nat.toDigits 10 n) = (false, Nat.toDigits 10 n) := by
  obtain ⟨c, more, hdigits⟩ := List.exists_cons_of_ne_nil (@Nat.toDigits_ne_nil n 10)
  have hc : c.isDigit := Nat.isDigit_of_mem_toDigits (b := 10) (n := n) (by decide) (by decide)
    (hdigits ▸ List.mem_cons_self)
  have hne : c ≠ '-' := by
    rintro rfl
    cases hc
  rw [hdigits]
  simp [minus, hne]

/-- The digits of a number are read as a literal. -/
theorem read?_toDigits {negative : Bool} {chars : List Char} {n : Nat}
    (h : minus chars = (negative, Nat.toDigits 10 n)) :
    read? chars = some (⟨negative, Nat.toDigits 10 n, none, none⟩, []) := by
  have hdigits : ∀ c ∈ Nat.toDigits 10 n, c.isDigit := fun c hc =>
    Nat.isDigit_of_mem_toDigits (by decide) (by decide) hc
  have htake : (Nat.toDigits 10 n).takeWhile Char.isDigit = Nat.toDigits 10 n :=
    List.takeWhile_eq_self_iff.mpr hdigits
  have hdrop : (Nat.toDigits 10 n).dropWhile Char.isDigit = [] :=
    List.dropWhile_eq_nil_iff.mpr hdigits
  have hleading : ¬ ((Nat.toDigits 10 n).isEmpty || (Nat.toDigits 10 n).head? == some '0' &&
      (Nat.toDigits 10 n).length ≠ 1) := by
    by_cases hn : n = 0
    · subst hn
      decide
    · have hempty : (Nat.toDigits 10 n).isEmpty = false :=
        List.isEmpty_eq_false_iff.mpr Nat.toDigits_ne_nil
      simp [hempty, head?_toDigits hn]
  unfold read?
  rw [h]
  simp only [htake, hdrop, if_neg hleading]
  rfl

end Literal

/-- The integers that are read as such: those of 64 bits, with a sign or without. -/
def Fits (n : Int) : Prop := -2 ^ 63 ≤ n ∧ n < 2 ^ 64

/-- An integer comes back from its digits. -/
theorem read?_toString {n : Int} (h : Fits n) :
    ∃ l, Literal.read? (toString n).toList = some (l, []) ∧ l.value? = some (.int n) := by
  obtain ⟨hlow, hhigh⟩ := h
  cases n with
  | ofNat n =>
    have htext : (toString (Int.ofNat n)).toList = Nat.toDigits 10 n := Nat.toList_repr
    refine ⟨⟨false, Nat.toDigits 10 n, none, none⟩, ?_, ?_⟩
    · rw [htext]
      exact Literal.read?_toDigits (Literal.minus_toDigits n)
    · have hfits : n < Nat.pow 2 64 := by
        simp only [Int.ofNat_eq_natCast] at hhigh
        exact_mod_cast hhigh
      simp [Literal.value?, Literal.digitsValue_toDigits, hfits]
  | negSucc n =>
    have htext : (toString (Int.negSucc n)).toList = '-' :: Nat.toDigits 10 (n + 1) := by
      show ("-" ++ Nat.repr (n + 1)).toList = _
      rw [String.toList_append, Nat.toList_repr]
      rfl
    refine ⟨⟨true, Nat.toDigits 10 (n + 1), none, none⟩, ?_, ?_⟩
    · rw [htext]
      exact Literal.read?_toDigits rfl
    · have hfits : n + 1 ≤ Nat.pow 2 63 := by
        have : (n : Int) + 1 ≤ 2 ^ 63 := by omega
        exact_mod_cast this
      simp [Literal.value?, Literal.digitsValue_toDigits, hfits]
      omega

end Json
end Automation
