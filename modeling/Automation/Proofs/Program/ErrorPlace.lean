import Automation.Proofs.Program.Cut
import Mathlib.Data.List.Nodup

/-!
# The place of a syntax error

A list of tokens is viable if some continuation makes it a program. The error of tokens that are no
program stands at the first token with which they stop being viable; if they are viable to the end,
so that only more tokens are missing, it stands at the last one.
-/
namespace Automation

open Grammar

/-- Some continuation makes a program of the tokens. -/
def Viable (tokens : List Token) : Prop :=
  ∃ more program, Program.ofTokens (tokens ++ more) = .ok program

theorem viable_iff_rules {tokens : List Token} :
    Viable tokens ↔ ∃ more rs, Parser.rules (tokens ++ more) = .ok rs := by
  constructor
  · rintro ⟨more, program, h⟩
    exact ⟨more, program.rules, Program.ofTokens_eq_ok_iff.mp h⟩
  · rintro ⟨more, rs, h⟩
    exact ⟨more, ⟨rs⟩, Program.ofTokens_eq_ok_iff.mpr h⟩

theorem viable_of_append {tokens more : List Token} (h : Viable (tokens ++ more)) :
    Viable tokens := by
  obtain ⟨rest, program, h⟩ := h
  exact ⟨more ++ rest, program, by rwa [← List.append_assoc]⟩

theorem viable_stray {gap tokens : List Token} (hg : Stray gap) :
    Viable (gap ++ tokens) ↔ Viable tokens := by
  simp only [viable_iff_rules, List.append_assoc, Parser.rules_stray hg]

theorem viable_block {block tokens : List Token} {rule : Rule} (hb : Block block rule) :
    Viable (block ++ tokens) ↔ Viable tokens := by
  simp only [viable_iff_rules, List.append_assoc, Parser.rules_block hb]
  constructor
  · rintro ⟨more, rs, h⟩
    cases hr : Parser.rules (tokens ++ more) with
    | error stuck => rw [hr] at h; cases h
    | ok rs' => exact ⟨more, rs', hr⟩
  · rintro ⟨more, rs, h⟩
    exact ⟨more, rule :: rs, by rw [h]; rfl⟩

/-- The front of a block can be completed. -/
theorem viable_of_block {front more : List Token} {rule : Rule} (hb : Block (front ++ more) rule) :
    Viable front := by
  refine @viable_of_append front more ?_
  rw [← List.append_nil (front ++ more), viable_block hb]
  exact ⟨[], ⟨[]⟩, by rw [List.append_nil, Program.ofTokens, Parser.rules]⟩

namespace Parser

/-- A parse that is stuck at a token can go on from nowhere but before it. -/
theorem rules_stuck {tokens : List Token} {missing : Missing} {token : Token}
    (h : rules tokens = .error ⟨missing, some token⟩) :
    ∃ read rest, tokens = read ++ token :: rest ∧ Viable read ∧ ¬ Viable (read ++ [token]) := by
  fun_induction rules tokens with
  | case1 => cases h
  | case2 t rest ht ih =>
    obtain ⟨read, later, rfl, hv, hn⟩ := ih h
    have hs : Stray [t] := stray_cons.mpr ⟨ht, by simp [Stray]⟩
    refine ⟨t :: read, later, rfl, ?_, ?_⟩
    · exact (viable_stray hs).mpr hv
    · exact (viable_stray hs).not.mpr hn
  | case3 t rest opener ht stuck he =>
    cases h
    obtain ⟨read, later, rfl, ⟨more, rule, hb⟩, hlater⟩ := (reads_blockBody opener).stuck he
    have hw := Opener.ofToken?_eq_some_iff.mp ht
    have hblock : Block ((t :: read) ++ more) rule := .mk hw hb
    refine ⟨t :: read, later, rfl, viable_of_block hblock, ?_⟩
    rw [viable_iff_rules]
    rintro ⟨more, rs, hr⟩
    rw [List.cons_append, List.cons_append, List.append_assoc, rules_of_opener ht,
      List.singleton_append, hlater more] at hr
    cases hr
  | case4 => cases h
  | case5 t rest opener ht rule later hb stuck he ih =>
    cases h
    obtain ⟨front, rfl, hl⟩ := (reads_blockBody opener).sound hb
    have hblock : Block (t :: front) rule := .mk (Opener.ofToken?_eq_some_iff.mp ht) hl
    obtain ⟨read, rest, rfl, hv, hn⟩ := ih he
    refine ⟨t :: front ++ read, rest, by simp, (viable_block hblock).mpr hv, ?_⟩
    rw [List.append_assoc]
    exact (viable_block hblock).not.mpr hn

/-- A parse that runs out of tokens could go on. -/
theorem rules_short {tokens : List Token} {missing : Missing}
    (h : rules tokens = .error ⟨missing, none⟩) : tokens ≠ [] ∧ Viable tokens := by
  fun_induction rules tokens with
  | case1 => cases h
  | case2 t rest ht ih =>
    have hs : Stray [t] := stray_cons.mpr ⟨ht, by simp [Stray]⟩
    exact ⟨List.cons_ne_nil _ _, (viable_stray hs).mpr (ih h).2⟩
  | case3 t rest opener ht stuck he =>
    cases h
    obtain ⟨more, rule, hb⟩ := (reads_blockBody opener).short he
    have hblock : Block ((t :: rest) ++ more) rule := .mk (Opener.ofToken?_eq_some_iff.mp ht) hb
    exact ⟨List.cons_ne_nil _ _, viable_of_block hblock⟩
  | case4 => cases h
  | case5 t rest opener ht rule later hb stuck he ih =>
    cases h
    obtain ⟨front, rfl, hl⟩ := (reads_blockBody opener).sound hb
    have hblock : Block (t :: front) rule := .mk (Opener.ofToken?_eq_some_iff.mp ht) hl
    exact ⟨List.cons_ne_nil _ _, (viable_block hblock).mpr (ih he).2⟩

end Parser

/-- Where the error of tokens that are no program stands. -/
theorem place_of_error {tokens : List Token} {e : SyntaxError}
    (h : Program.ofTokens tokens = .error e) :
    ∃ read token rest, tokens = read ++ token :: rest ∧
      e.line = token.line ∧ e.column = token.column ∧ Viable read ∧
      (¬ Viable (read ++ [token]) ∨ rest = [] ∧ Viable tokens) := by
  rw [Program.ofTokens] at h
  cases hr : Parser.rules tokens with
  | ok rs => rw [hr] at h; cases h
  | error stuck =>
    rw [hr] at h
    cases h
    obtain ⟨missing, token⟩ := stuck
    cases token with
    | some token =>
      obtain ⟨read, rest, he, hv, hn⟩ := Parser.rules_stuck hr
      exact ⟨read, token, rest, he, rfl, rfl, hv, Or.inl hn⟩
    | none =>
      obtain ⟨hne, hv⟩ := Parser.rules_short hr
      obtain ⟨read, last, rfl⟩ := (List.eq_nil_or_concat tokens).resolve_left hne
      rw [List.concat_eq_append] at hv ⊢
      refine ⟨read, last, [], rfl, ?_, ?_, viable_of_append hv, Or.inr ⟨rfl, hv⟩⟩
      · simp [Stuck.toError]
      · simp [Stuck.toError]

/-- If no two tokens stand at one place, the error of tokens that are no program stands at exactly
one of them. What is before it can be completed to a program; what ends with it cannot, unless it is
the last token and all that is missing is what would follow. -/
theorem error_at_first_unviable {tokens : List Token} {e : SyntaxError}
    (distinct : (tokens.map fun t => (t.line, t.column)).Nodup)
    (h : Program.ofTokens tokens = .error e) :
    ∃ k, k < tokens.length ∧
      (∀ j (hj : j < tokens.length),
        (tokens[j].line, tokens[j].column) = (e.line, e.column) ↔ j = k) ∧
      Viable (tokens.take k) ∧
      (¬ Viable (tokens.take (k + 1)) ∨ k + 1 = tokens.length ∧ Viable tokens) := by
  obtain ⟨read, token, rest, rfl, hl, hc, hv, hcase⟩ := place_of_error h
  refine ⟨read.length, by simp, fun j hj => ?_, ?_, ?_⟩
  · have hread :
        read.length < ((read ++ token :: rest).map fun t => (t.line, t.column)).length := by
      simp
    have hj' : j < ((read ++ token :: rest).map fun t => (t.line, t.column)).length := by
      rwa [List.length_map]
    have hplace : (e.line, e.column) =
        ((read ++ token :: rest).map fun t => (t.line, t.column))[read.length] := by
      simp [hl, hc]
    have hinj := @List.Nodup.getElem_inj_iff _ _ distinct j hj' read.length hread
    rw [hplace, ← hinj, List.getElem_map, List.getElem_map]
  · rwa [List.take_left]
  · have htake : (read ++ token :: rest).take (read.length + 1) = read ++ [token] := by
      rw [List.append_cons, List.take_left' (by simp)]
    rw [htake]
    refine hcase.imp id fun ⟨hr, hv⟩ => ⟨?_, hv⟩
    simp [hr]

/-- A rule without its actions and its end, and a stray bracket behind it. -/
theorem error_at_first_unviable_bracket :
    let tokens : List Token := [⟨.keyword, "on", 1, 3⟩, ⟨.identifier, "raid", 1, 8⟩,
      ⟨.keyword, "do", 1, 11⟩, ⟨.symbol, "(", 1, 13⟩]
    (tokens.map fun t => (t.line, t.column)).Nodup ∧
      Program.ofTokens tokens = .error ⟨1, 13, .command "("⟩ ∧
      ∃ k, k < tokens.length ∧
        (∀ j (hj : j < tokens.length),
          (tokens[j].line, tokens[j].column) = (1, 13) ↔ j = k) ∧
        Viable (tokens.take k) ∧
        (¬ Viable (tokens.take (k + 1)) ∨ k + 1 = tokens.length ∧ Viable tokens) := by
  intro tokens
  have hd : (tokens.map fun t => (t.line, t.column)).Nodup := by decide
  have he : Program.ofTokens tokens = .error ⟨1, 13, .command "("⟩ := by
    rw [Program.ofTokens, @Parser.rules_of_opener _ .on rfl]
    simp [Parser.blockBody, Parser.trigger, Parser.eventName, Parser.keyword, Parser.take,
      Parser.actions, Token.isKeyword, bind, Except.bind]
    rfl
  exact ⟨hd, he, error_at_first_unviable hd he⟩

end Automation
