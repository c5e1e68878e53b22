import Automation.Json.Document
import Automation.Json.Printer
import Automation.Proofs.Uuid

/-!
# Printed strings

A string comes back as it was: what is written for a character is read as that character, and only
the closing quote stands unescaped.
-/
namespace Automation.Json

open Document

/-- Four digits that stand for a character below the surrogates. -/
theorem stringBody_unicode {n : Nat} (h : n < 0xd800) (acc rest : List Char) :
    stringBody ⟨true, none⟩ acc ('\\' :: 'u' :: (Text.hexDigits 4 n ++ rest)) =
      stringBody ⟨true, none⟩ (Char.ofNat n :: acc) rest := by
  have hnumber : Text.hexNumber? (Text.hexDigits 4 n) = some n :=
    Text.hexNumber?_hexDigits (Nat.lt_trans h (by decide))
  have hunit : addUnit ⟨true, none⟩ acc n = (⟨true, none⟩, Char.ofNat n :: acc) := by
    have hhigh : ¬ 0xd800 ≤ n := Nat.not_le_of_lt h
    have hlow : ¬ 0xdc00 ≤ n := fun hle => hhigh (Nat.le_trans (by decide) hle)
    simp [addUnit, hhigh, hlow, Pending.close]
  obtain ⟨a, b, c, d, hdigits⟩ : ∃ a b c d, Text.hexDigits 4 n = [a, b, c, d] :=
    ⟨_, _, _, _, rfl⟩
  rw [hdigits] at hnumber ⊢
  show stringBody ⟨true, none⟩ acc ('\\' :: 'u' :: a :: b :: c :: d :: rest) = _
  rw [stringBody, hnumber]
  simp only [hunit]

/-- What is written for a character is read as that character. -/
theorem stringBody_escaped (c : Char) (acc rest : List Char) :
    stringBody ⟨true, none⟩ acc (escaped c ++ rest) = stringBody ⟨true, none⟩ (c :: acc) rest := by
  unfold escaped
  -- the characters with an escape of one letter
  iterate 7
    split
    · next h =>
      obtain rfl := beq_iff_eq.mp h
      rfl
  split
  · next h =>
    have hread := stringBody_unicode (Nat.lt_trans h (by decide)) acc rest
    rw [Char.ofNat_toNat] at hread
    exact hread
  · next hquote hslash _ _ _ _ _ hcontrol =>
    rw [beq_iff_eq] at hquote hslash
    have hplain : (c.toNat < 0x20 || c == '\\') = false := by simp [hcontrol, hslash]
    show stringBody ⟨true, none⟩ acc (c :: rest) = _
    rw [stringBody]
    · rw [hplain]
      rfl
    · exact hquote
    · exact fun _ _ _ _ _ he _ => hslash he
    · exact fun _ _ he _ => hslash he

theorem stringBody_flatMap (chars acc rest : List Char) :
    stringBody ⟨true, none⟩ acc (chars.flatMap escaped ++ '"' :: rest) =
      some (some (String.ofList (acc.reverse ++ chars)), rest) := by
  induction chars generalizing acc with
  | nil =>
    rw [List.append_nil]
    rfl
  | cons c chars ih =>
    rw [List.flatMap_cons, List.append_assoc, stringBody_escaped, ih, List.reverse_cons,
      List.append_assoc]
    rfl

theorem toList_quoted (text : String) :
    (quoted text).toList = '"' :: (text.toList.flatMap escaped ++ ['"']) := by
  rw [quoted, String.toList_ofList]
  rfl

/-- A string comes back from what is printed of it. -/
theorem readString_quoted (text : String) (rest : List Char) :
    readString (text.toList.flatMap escaped ++ '"' :: rest) = some (some text, rest) := by
  rw [readString, stringBody_flatMap, List.reverse_nil, List.nil_append, String.ofList_toList]

end Automation.Json
