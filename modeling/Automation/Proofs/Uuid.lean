import Automation.Uuid
import Mathlib

/-!
# Identifiers as text

The text of an identifier reads back as the identifier, so different identifiers have different
texts.
-/
namespace Automation

namespace Text

theorem hexValue?_hexDigit : ∀ d < 16, hexValue? (hexDigit d) = some d := by decide

theorem length_hexDigits (count n : Nat) : (hexDigits count n).length = count := by
  induction count generalizing n with
  | zero => rfl
  | succ count ih => rw [hexDigits, List.length_append, ih, List.length_singleton]

theorem hexNumber?_append (chars : List Char) (c : Char) :
    hexNumber? (chars ++ [c]) =
      (hexNumber? chars).bind fun value => (hexValue? c).map (value * 16 + ·) := by
  simp [hexNumber?, List.foldlM_append]

/-- A number reads back from its digits if there are enough of them. -/
theorem hexNumber?_hexDigits {count n : Nat} (h : n < 16 ^ count) :
    hexNumber? (hexDigits count n) = some n := by
  induction count generalizing n with
  | zero =>
    have hn : n = 0 := Nat.lt_one_iff.mp h
    rw [hn]
    rfl
  | succ count ih =>
    have hdiv : n / 16 < 16 ^ count := by
      apply Nat.div_lt_of_lt_mul
      rwa [← Nat.pow_succ']
    rw [hexDigits, hexNumber?_append, ih hdiv, hexValue?_hexDigit _ (Nat.mod_lt n (by decide))]
    simp only [Option.bind_some, Option.map_some, Nat.div_add_mod']

end Text

namespace Uuid

/-- The hyphens can be taken out again. -/
theorem unhyphenate?_hyphenate {groups : List Nat} {digits : List Char}
    (h : digits.length = groups.sum) :
    unhyphenate? groups (hyphenate groups digits) = some digits := by
  fun_induction hyphenate groups digits with
  | case1 digits =>
    obtain rfl : digits = [] := List.length_eq_zero_iff.mp h
    rfl
  | case2 size digits =>
    rw [unhyphenate?, if_pos (by simpa using h)]
  | case3 size rest digits hrest ih =>
    rw [List.sum_cons] at h
    have htake : (digits.take size).length = size := by
      rw [List.length_take]
      omega
    have hdrop : (digits.drop size).length = rest.sum := by
      rw [List.length_drop]
      omega
    obtain ⟨next, later, rfl⟩ := List.exists_cons_of_ne_nil hrest
    rw [unhyphenate?, List.drop_left' htake, List.take_left' htake]
    · simp only [ih hdrop, Option.map_some, List.take_append_drop]
    · exact hrest

/-- The printed form is read as the digits between its hyphens. -/
theorem ofChars?_of_hyphenated {chars : List Char} (h : chars.length = 36) :
    ofChars? chars = (unhyphenate? groups chars).bind fun digits =>
      if digits.length = 32 then (Text.hexNumber? digits).map fun n => ⟨BitVec.ofNat 128 n⟩
      else none := by
  have hne : chars.length ≠ 32 := by
    rw [h]
    decide
  rw [ofChars?.eq_def, if_neg hne, if_pos h]
  rfl

theorem length_hyphenate {digits : List Char} (h : digits.length = 32) :
    (hyphenate groups digits).length = 36 := by
  simp [groups, hyphenate, h]

/-- The text of an identifier reads back as the identifier. -/
theorem ofText?_text (id : Uuid) : ofText? id.text = some id := by
  have hlength : (Text.hexDigits 32 id.value.toNat).length = 32 := Text.length_hexDigits _ _
  have hvalue : id.value.toNat < 16 ^ 32 := id.value.isLt
  have hchars : id.chars.length = 36 := length_hyphenate hlength
  have hgroups : unhyphenate? groups id.chars = some (Text.hexDigits 32 id.value.toNat) :=
    unhyphenate?_hyphenate (hlength.trans (by decide))
  rw [ofText?, text, String.toList_ofList, ofChars?_of_hyphenated hchars, hgroups,
    Option.bind_some, if_pos hlength, Text.hexNumber?_hexDigits hvalue]
  simp

theorem text_injective : Function.Injective text := by
  intro a b h
  have hb := ofText?_text b
  rw [← h, ofText?_text] at hb
  exact Option.some.inj hb

end Uuid
end Automation
