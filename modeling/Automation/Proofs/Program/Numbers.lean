import Automation.Proofs.Number.Numeral
import Automation.Proofs.Program.ErrorPlace
import Automation.Proofs.Program.Literals
import Automation.Proofs.Token.Printing

/-!
# Number tokens are numbers

The scanner and the reader of numbers have each their own idea of a numeral. The first is the
narrower one: what it cuts off as a number has no sign, no exponent and no point at an end, and all
of that is read. The parser complains of a number at a number token that is not read and nowhere
else, so it never does in a text, and no number in a program is below zero.
-/
namespace Automation

/-- A parse that is stuck at a number is so at a number token that cannot be read. -/
def Stuck.IsFair (stuck : Stuck) : Prop :=
  ∀ found, stuck.missing = .number found →
    ∃ t, stuck.token = some t ∧ t.kind = .number ∧ Double.ofText? t.value = none

namespace Parser

/-- All complaints of a parser about numbers are fair. -/
def IsFair (p : Parser α) : Prop := ∀ tokens stuck, p tokens = .error stuck → stuck.IsFair

theorem isFair_take {missing : Missing} (read? : Token → Option α)
    (h : ∀ found, missing ≠ .number found) : IsFair (take missing read?) := by
  intro tokens stuck hs found hf
  cases tokens with
  | nil =>
    cases hs
    exact absurd hf (h found)
  | cons t rest =>
    rw [take] at hs
    split at hs
    · cases hs
    · cases hs
      exact absurd hf (h found)

theorem IsFair.bind {p : Parser α} {f : α × List Token → Except Stuck β} (h : IsFair p)
    (hf : ∀ r stuck, f r = .error stuck → stuck.IsFair) :
    ∀ tokens stuck, (p tokens >>= f) = .error stuck → stuck.IsFair := by
  intro tokens stuck hs
  cases hp : p tokens with
  | error other =>
    rw [hp] at hs
    cases hs
    exact h tokens stuck hp
  | ok r =>
    rw [hp] at hs
    exact hf r stuck hs

theorem isFair_keyword (word : String) {missing : Missing}
    (h : ∀ found, missing ≠ .number found) : IsFair (keyword word missing) :=
  isFair_take _ h

theorem isFair_condition (event : String) : IsFair (condition event) := by
  intro tokens stuck hs
  cases tokens with
  | nil => cases hs
  | cons t rest =>
    rw [condition] at hs
    split at hs
    · cases hs
    · exact (isFair_take _ (by simp)).bind (fun _ _ hr => by cases hr) rest stuck hs

theorem isFair_trigger (opener : Opener) : IsFair (trigger opener) := by
  cases opener with
  | whenever =>
    refine (isFair_take _ (by simp)).bind fun r => ?_
    refine (isFair_condition r.1).bind (fun r' => ?_) r.2
    exact (isFair_keyword "then" (by simp)).bind (fun _ _ hr => by cases hr) r'.2
  | on =>
    refine (isFair_take _ (by simp)).bind fun r => ?_
    exact (isFair_keyword "do" (by simp)).bind (fun _ _ hr => by cases hr) r.2
  | every =>
    refine (isFair_take _ (by simp)).bind fun r => ?_
    refine (isFair_take _ (by simp)).bind (fun r' => ?_) r.2
    exact (isFair_keyword "do" (by simp)).bind (fun _ _ hr => by cases hr) r'.2

theorem isFair_argument {t : Token} {stuck : Stuck} (h : argument t = .error stuck) :
    stuck.IsFair := by
  intro found hf
  rw [argument] at h
  split at h
  · cases h
  · next hk =>
    split at h
    · cases h
    · next hn =>
      cases h
      exact ⟨t, rfl, hk, hn⟩
  · cases h
    cases hf

theorem isFair_argumentsFrom : IsFair argumentsFrom := by
  intro tokens stuck hs
  fun_induction argumentsFrom tokens with
  | case1 => cases hs; exact fun _ hf => by cases hf
  | case2 t rest stuck he => cases hs; exact isFair_argument he
  | case3 => cases hs; exact fun _ hf => by cases hf
  | case4 => cases hs
  | case5 _ _ _ _ _ _ _ he ih => cases hs; exact ih he
  | case6 => cases hs
  | case7 => cases hs; exact fun _ hf => by cases hf

theorem isFair_arguments (command : String) : IsFair (arguments command) := by
  refine (isFair_take _ (by simp)).bind fun r stuck hs => ?_
  obtain ⟨u, rest⟩ := r
  cases rest with
  | nil => exact isFair_argumentsFrom [] stuck hs
  | cons t later =>
    simp only at hs
    split at hs
    · cases hs
    · exact isFair_argumentsFrom (t :: later) stuck hs

theorem isFair_actions (opener : Opener) : IsFair (actions opener) := by
  intro tokens stuck hs
  fun_induction actions opener tokens with
  | case1 => cases hs; exact fun _ hf => by cases hf
  | case2 => cases hs
  | case3 t rest _ _ stuck he => cases hs; exact isFair_arguments t.value rest stuck he
  | case4 => cases hs
  | case5 _ _ _ _ _ _ _ _ he ih => cases hs; exact ih he
  | case6 => cases hs; exact fun _ hf => by cases hf

theorem isFair_blockBody (opener : Opener) : IsFair (blockBody opener) := by
  refine (isFair_trigger opener).bind fun r => ?_
  exact (isFair_actions opener).bind (fun _ _ hr => by cases hr) r.2

theorem isFair_rules {tokens : List Token} {stuck : Stuck} (h : rules tokens = .error stuck) :
    stuck.IsFair := by
  fun_induction rules tokens with
  | case1 => cases h
  | case2 _ _ _ ih => exact ih h
  | case3 t rest opener _ stuck he => cases h; exact isFair_blockBody opener rest stuck he
  | case4 => cases h
  | case5 _ _ _ _ _ _ _ _ he ih => cases h; exact ih he

end Parser

theorem head?_toList_append {front : String} {c : Char} (h : front.toList.head? = some c)
    (back : String) : (front ++ back).toList.head? = some c := by
  rw [String.toList_append, List.head?_append, h]
  rfl

/-- Only a number is called invalid. All else that is missing is called expected. -/
theorem Missing.head?_message {missing : Missing} (h : ∀ found, missing ≠ .number found) :
    missing.message.toList.head? = some 'E' := by
  have hopen : ∀ front back last : String, front.toList.head? = some 'E' →
      (front ++ back ++ last).toList.head? = some 'E' := fun _ back last hf =>
    head?_toList_append (head?_toList_append hf back) last
  cases missing with
  | number found => exact absurd rfl (h found)
  | block | consequence | amount | separator | argument => decide +kernel
  | body after => cases after <;> decide +kernel
  | opener | command | argumentList | unit | eventName | closing | operand =>
    exact hopen _ _ _ (by decide +kernel)

theorem Missing.message_ne_invalid {missing : Missing} (h : ∀ found, missing ≠ .number found)
    (found : String) : missing.message ≠ "Invalid number '" ++ found ++ "'" := by
  intro he
  have hinvalid : ("Invalid number '" ++ found ++ "'").toList.head? = some 'I' :=
    head?_toList_append (head?_toList_append (by decide +kernel) found) "'"
  rw [← he, Missing.head?_message h] at hinvalid
  exact absurd hinvalid (by decide)

/-- A number token of a text is a numeral, and what it writes is read. -/
theorem ofText?_of_number {code : String} {t : Token} (ht : t ∈ Token.scan code)
    (hk : t.kind = .number) :
    Token.IsNumeral t.value.toList ∧
      ∃ digits exponent, Double.ofText? t.value = some (.ofDecimal false digits exponent) := by
  have hwell := Token.wellFormed_scanFrom t ht
  rw [hk] at hwell
  cases hwell with
  | number hn => exact ⟨hn, Double.ofChars?_numeral hn⟩

/-- No text is refused for a number. -/
theorem missing_ne_number {code : String} {e : SyntaxError} (h : Program.compile code = .error e)
    (found : String) : e.missing ≠ .number found := by
  intro hm
  rw [Program.compile, Program.ofTokens] at h
  cases hr : Parser.rules (Token.scan code) with
  | ok rules => rw [hr] at h; cases h
  | error stuck =>
    rw [hr] at h
    cases h
    have hmissing : stuck.missing = .number found := by
      rw [← hm, Stuck.toError]
      split <;> rfl
    obtain ⟨missing, place⟩ := stuck
    obtain ⟨t, rfl, hk, hn⟩ := Parser.isFair_rules hr found hmissing
    obtain ⟨read, rest, hscan, -⟩ := Parser.rules_stuck hr
    have ht : t ∈ Token.scan code := by simp [hscan]
    obtain ⟨-, digits, exponent, hread⟩ := ofText?_of_number ht hk
    rw [hread] at hn
    cases hn

/-- Numbers from the text to the program. Each number token of a text is digits, or digits on both
sides of one point, and the parser reads it as a number without a sign. So no text is refused for an
invalid number, and all numbers in a compiled program are zero or above. -/
theorem numbers_are_read (code : String) :
    (∀ t ∈ Token.scan code, t.kind = .number →
      Token.IsNumeral t.value.toList ∧
        ∃ d, Parser.argument t = .ok (.number d) ∧ d.Unsigned) ∧
      (∀ e, Program.compile code = .error e →
        ∀ found, e.message ≠ "Invalid number '" ++ found ++ "'") ∧
      ∀ program, Program.compile code = .ok program →
        ∀ rule ∈ program.rules, ∀ action ∈ rule.actions, ∀ d, .number d ∈ action.arguments →
          d.Unsigned ∧ d ≠ .nan ∧ Double.zero.le d := by
  refine ⟨fun t ht hk => ?_, fun e he => ?_, fun program hp rule hrule action haction d hd => ?_⟩
  · obtain ⟨hn, digits, exponent, hread⟩ := ofText?_of_number ht hk
    exact ⟨hn, _, Parser.argument_eq_ok_iff.mpr (.number hk hread),
      Double.unsigned_ofDecimal digits exponent⟩
  · exact Missing.message_ne_invalid (missing_ne_number he)
  · obtain ⟨t, ht, hk, hread⟩ :=
      Program.isReadFrom_of_compile hp rule hrule action haction _ hd d rfl
    obtain ⟨-, digits, exponent, hdecimal⟩ := ofText?_of_number ht hk
    have hunsigned : d.Unsigned := by
      rw [hdecimal] at hread
      cases hread
      exact Double.unsigned_ofDecimal digits exponent
    exact ⟨hunsigned, hunsigned.ne_nan, hunsigned.zero_le⟩

/-- A point at an end of a number is none of it, and neither is a second one. -/
example : (Token.scan "1. 1..2 1.2.3").map Token.content =
    [(.number, "1"), (.number, "1"), (.number, "2"), (.number, "1.2"), (.number, "3")] := by
  decide +kernel

end Automation
