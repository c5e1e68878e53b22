import Automation.Diagnostic
import Automation.Proofs.Program.Reading
import Mathlib.Data.List.Forall2

/-!
# Programs as cuts of their tokens

The tokens of a program are cut into rule blocks, with tokens that open no block before, between and
after them. A list of tokens has at most one such cut, since a block cannot be a part of the front
of another one, and the parser finds it: the rules of the program are those of its blocks, in their
order.
-/
namespace Automation

open Grammar

/-- None of the tokens is a keyword that opens a block. -/
def Stray (tokens : List Token) : Prop :=
  ∀ t ∈ tokens, ∀ opener : Opener, ¬ t.isKeyword opener.word

/-- Rule blocks, each with the tokens before it, and the tokens after the last. -/
structure Cut where
  pieces : List (List Token × List Token)
  tail : List Token

namespace Cut

def tokens (cut : Cut) : List Token :=
  (cut.pieces.flatMap fun piece => piece.1 ++ piece.2) ++ cut.tail

/-- The blocks of a cut say the rules of a list, one each, and nothing else opens a block. -/
structure Spells (cut : Cut) (rules : List Rule) : Prop where
  gaps : ∀ piece ∈ cut.pieces, Stray piece.1
  tail : Stray cut.tail
  blocks : List.Forall₂ (fun piece rule => Block piece.2 rule) cut.pieces rules

@[simp] theorem tokens_nil (tail : List Token) : (Cut.mk [] tail).tokens = tail := rfl

@[simp] theorem tokens_cons (gap block tail : List Token)
    (pieces : List (List Token × List Token)) :
    (Cut.mk ((gap, block) :: pieces) tail).tokens =
      gap ++ (block ++ (Cut.mk pieces tail).tokens) := by
  simp [tokens]

theorem spells_nil_iff {tail : List Token} {rules : List Rule} :
    (Cut.mk [] tail).Spells rules ↔ Stray tail ∧ rules = [] := by
  constructor
  · rintro ⟨-, ht, hb⟩
    exact ⟨ht, List.forall₂_nil_left_iff.mp hb⟩
  · rintro ⟨ht, rfl⟩
    exact ⟨by simp, ht, .nil⟩

theorem spells_cons_iff {gap block tail : List Token} {pieces : List (List Token × List Token)}
    {rules : List Rule} :
    (Cut.mk ((gap, block) :: pieces) tail).Spells rules ↔
      Stray gap ∧ ∃ rule rest, rules = rule :: rest ∧ Block block rule ∧
        (Cut.mk pieces tail).Spells rest := by
  constructor
  · rintro ⟨hg, ht, hb⟩
    cases hb with
    | cons hb hbs =>
      rw [List.forall_mem_cons] at hg
      exact ⟨hg.1, _, _, rfl, hb, hg.2, ht, hbs⟩
  · rintro ⟨hg, rule, rest, rfl, hb, hgs, ht, hbs⟩
    exact ⟨List.forall_mem_cons.mpr ⟨hg, hgs⟩, ht, .cons hb hbs⟩

end Cut

theorem stray_cons {t : Token} {tokens : List Token} :
    Stray (t :: tokens) ↔ Opener.ofToken? t = none ∧ Stray tokens := by
  have ht : Opener.ofToken? t = none ↔ ∀ opener : Opener, ¬ t.isKeyword opener.word := by
    rw [Option.eq_none_iff_forall_ne_some]
    exact forall_congr' fun opener => not_congr Opener.ofToken?_eq_some_iff
  rw [ht, Stray, List.forall_mem_cons]
  rfl

theorem Grammar.Block.opener {block : List Token} {rule : Rule} (h : Block block rule) :
    ∃ t rest opener, block = t :: rest ∧ Opener.ofToken? t = some opener := by
  cases h with
  | mk hw _ => exact ⟨_, _, _, rfl, Opener.ofToken?_eq_some_iff.mpr hw⟩

namespace Parser

theorem rules_stray {gap : List Token} (hg : Stray gap) (rest : List Token) :
    rules (gap ++ rest) = rules rest := by
  induction gap with
  | nil => rfl
  | cons t gap ih =>
    obtain ⟨ht, hg⟩ := stray_cons.mp hg
    rw [List.cons_append, rules, ht]
    exact ih hg

/-- The equation of `rules` at a token that opens a block. -/
theorem rules_of_opener {t : Token} {opener : Opener} (ht : Opener.ofToken? t = some opener)
    (rest : List Token) :
    rules (t :: rest) = blockBody opener rest >>= fun r =>
      rules r.2 >>= fun more => .ok (r.1 :: more) := by
  rw [rules]
  split
  · next hn => rw [hn] at ht; cases ht
  · next other ho =>
    rw [ho] at ht
    cases ht
    split
    · next he => rw [he]; rfl
    · next rule later he =>
      rw [he]
      change _ = (rules later >>= _)
      cases rules later <;> rfl

theorem rules_block {block : List Token} {rule : Rule} (hb : Block block rule)
    (rest : List Token) :
    rules (block ++ rest) = rules rest >>= fun more => .ok (rule :: more) := by
  cases hb with
  | mk hw hb =>
    rw [List.cons_append, rules_of_opener (Opener.ofToken?_eq_some_iff.mpr hw),
      (reads_blockBody _).complete hb]
    rfl

theorem rules_of_cut {cut : Cut} {rs : List Rule} (h : cut.Spells rs) :
    rules cut.tokens = .ok rs := by
  obtain ⟨pieces, tail⟩ := cut
  induction pieces generalizing rs with
  | nil =>
    obtain ⟨ht, rfl⟩ := Cut.spells_nil_iff.mp h
    have hr := rules_stray ht []
    rw [List.append_nil] at hr
    rw [Cut.tokens_nil, hr, rules]
  | cons piece pieces ih =>
    obtain ⟨gap, block⟩ := piece
    obtain ⟨hg, rule, rest, rfl, hb, hs⟩ := Cut.spells_cons_iff.mp h
    rw [Cut.tokens_cons, rules_stray hg, rules_block hb, ih hs]
    rfl

theorem cut_of_rules {tokens : List Token} {rs : List Rule} (h : rules tokens = .ok rs) :
    ∃ cut : Cut, cut.tokens = tokens ∧ cut.Spells rs := by
  fun_induction rules tokens generalizing rs with
  | case1 =>
    cases h
    exact ⟨⟨[], []⟩, rfl, Cut.spells_nil_iff.mpr ⟨by simp [Stray], rfl⟩⟩
  | case2 t rest ht ih =>
    obtain ⟨⟨pieces, tail⟩, rfl, hs⟩ := ih h
    -- the token goes before the first block, or else to the end
    cases pieces with
    | nil =>
      obtain ⟨hg, rfl⟩ := Cut.spells_nil_iff.mp hs
      exact ⟨⟨[], t :: tail⟩, rfl, Cut.spells_nil_iff.mpr ⟨stray_cons.mpr ⟨ht, hg⟩, rfl⟩⟩
    | cons piece pieces =>
      obtain ⟨gap, block⟩ := piece
      obtain ⟨hg, hmore⟩ := Cut.spells_cons_iff.mp hs
      exact ⟨⟨(t :: gap, block) :: pieces, tail⟩, by simp,
        Cut.spells_cons_iff.mpr ⟨stray_cons.mpr ⟨ht, hg⟩, hmore⟩⟩
  | case3 => cases h
  | case4 t rest opener ht rule later hb more hm ih =>
    cases h
    obtain ⟨read, rfl, hl⟩ := (reads_blockBody opener).sound hb
    obtain ⟨⟨pieces, tail⟩, rfl, hs⟩ := ih hm
    refine ⟨⟨([], t :: read) :: pieces, tail⟩, by simp, Cut.spells_cons_iff.mpr ?_⟩
    exact ⟨by simp [Stray], rule, more, rfl, .mk (Opener.ofToken?_eq_some_iff.mp ht) hl, hs⟩
  | case5 => cases h

/-- Every rule takes a token at least. -/
theorem length_le_of_rules {tokens : List Token} {rs : List Rule} (h : rules tokens = .ok rs) :
    rs.length ≤ tokens.length := by
  obtain ⟨⟨pieces, tail⟩, rfl, hs⟩ := cut_of_rules h
  clear h
  induction pieces generalizing rs with
  | nil =>
    obtain ⟨-, rfl⟩ := Cut.spells_nil_iff.mp hs
    exact Nat.zero_le _
  | cons piece pieces ih =>
    obtain ⟨gap, block⟩ := piece
    obtain ⟨-, rule, rest, rfl, hb, hrest⟩ := Cut.spells_cons_iff.mp hs
    obtain ⟨t, more, -, rfl, -⟩ := hb.opener
    have hle := ih hrest
    simp only [Cut.tokens_cons, List.length_append, List.length_cons]
    omega

/-- Where the first block starts is fixed by the tokens alone. -/
theorem gap_unique {gap gap' rest rest' : List Token} {t t' : Token} {opener opener' : Opener}
    (hg : Stray gap) (hg' : Stray gap') (ht : Opener.ofToken? t = some opener)
    (ht' : Opener.ofToken? t' = some opener') (he : gap ++ t :: rest = gap' ++ t' :: rest') :
    gap = gap' := by
  induction gap generalizing gap' with
  | nil =>
    cases gap' with
    | nil => rfl
    | cons x gap' =>
      obtain ⟨rfl, -⟩ := List.cons.inj he
      rw [(stray_cons.mp hg').1] at ht
      cases ht
  | cons x gap ih =>
    cases gap' with
    | nil =>
      obtain ⟨rfl, -⟩ := List.cons.inj he
      rw [(stray_cons.mp hg).1] at ht'
      cases ht'
    | cons x' gap' =>
      obtain ⟨rfl, hrest⟩ := List.cons.inj he
      rw [ih (stray_cons.mp hg).2 (stray_cons.mp hg').2 hrest]

theorem not_stray_of_block {gap block rest : List Token} {rule : Rule} (hb : Block block rule) :
    ¬ Stray (gap ++ (block ++ rest)) := by
  obtain ⟨t, more, opener, rfl, ht⟩ := hb.opener
  intro hs
  exact hs t (by simp) opener (Opener.ofToken?_eq_some_iff.mp ht)

/-- A list of tokens has at most one cut, and that says one list of rules. -/
theorem cut_unique {cut other : Cut} {rs others : List Rule} (h : cut.Spells rs)
    (ho : other.Spells others) (he : cut.tokens = other.tokens) : cut = other := by
  obtain ⟨pieces, tail⟩ := cut
  obtain ⟨pieces', tail'⟩ := other
  induction pieces generalizing pieces' rs others with
  | nil =>
    cases pieces' with
    | nil => rw [Cut.tokens_nil, Cut.tokens_nil] at he; rw [he]
    | cons piece' pieces' =>
      obtain ⟨-, rule, rest, -, hb, -⟩ := Cut.spells_cons_iff.mp ho
      rw [Cut.tokens_nil, Cut.tokens_cons] at he
      exact absurd (he ▸ (Cut.spells_nil_iff.mp h).1) (not_stray_of_block hb)
  | cons piece pieces ih =>
    obtain ⟨gap, block⟩ := piece
    obtain ⟨hg, rule, rest, -, hb, hs⟩ := Cut.spells_cons_iff.mp h
    cases pieces' with
    | nil =>
      rw [Cut.tokens_nil, Cut.tokens_cons] at he
      exact absurd (he ▸ (Cut.spells_nil_iff.mp ho).1) (not_stray_of_block hb)
    | cons piece' pieces' =>
      obtain ⟨gap', block'⟩ := piece'
      obtain ⟨hg', rule', rest', -, hb', hs'⟩ := Cut.spells_cons_iff.mp ho
      rw [Cut.tokens_cons, Cut.tokens_cons] at he
      obtain ⟨t, ts, opener, hbt, ht⟩ := hb.opener
      obtain ⟨t', ts', opener', hbt', ht'⟩ := hb'.opener
      obtain rfl : gap = gap' := by
        apply gap_unique hg hg' ht ht'
        rw [hbt, hbt', List.cons_append, List.cons_append] at he
        exact he
      have he := List.append_cancel_left he
      -- the parser takes both blocks off the same tokens
      have hread := reads_block.complete hb (Cut.mk pieces tail).tokens
      rw [he, reads_block.complete hb'] at hread
      obtain ⟨-, hrest⟩ := Prod.mk.inj (Except.ok.inj hread)
      rw [hrest] at he
      rw [List.append_cancel_right he]
      have hmore := ih hs pieces' hs' hrest.symm
      rw [Cut.mk.injEq] at hmore ⊢
      exact ⟨by rw [hmore.1], hmore.2⟩

end Parser

theorem Program.ofTokens_eq_ok_iff {tokens : List Token} {program : Program} :
    Program.ofTokens tokens = .ok program ↔ Parser.rules tokens = .ok program.rules := by
  obtain ⟨rules⟩ := program
  rw [Program.ofTokens]
  cases Parser.rules tokens <;> simp

/-- Every token takes a character at least. -/
theorem Token.length_scanFrom_le (place : Position) (chars : List Char) :
    (scanFrom place chars).length ≤ chars.length := by
  fun_induction scanFrom place chars with
  | case1 => exact Nat.le_refl 0
  | case2 place c rest first next later kind value hl ih =>
    have hdrop : (rest.drop first.extra).length ≤ rest.length := by simp
    exact Nat.succ_le_succ (Nat.le_trans ih hdrop)
  | case3 place c rest first next later hl ih =>
    have hdrop : (rest.drop first.extra).length ≤ rest.length := by simp
    exact Nat.le_succ_of_le (Nat.le_trans ih hdrop)

/-- A program has no more rules than its text has characters. -/
theorem Program.length_rules_le {code : String} {program : Program}
    (h : compile code = .ok program) : program.rules.length ≤ code.length :=
  Nat.le_trans (Parser.length_le_of_rules (ofTokens_eq_ok_iff.mp h))
    (Token.length_scanFrom_le Position.start code.toList)

theorem Rule.ofTokens_eq_ok_iff {tokens : List Token} {start next : Nat} {rule : Rule} :
    Rule.ofTokens tokens start = .ok (rule, next) ↔
      start ≤ next ∧ next ≤ tokens.length ∧ Block ((tokens.take next).drop start) rule := by
  rw [Rule.ofTokens, List.drop_take]
  constructor
  · intro h
    cases hb : Parser.block (tokens.drop start) with
    | error stuck => rw [hb] at h; cases h
    | ok r =>
      obtain ⟨rule', rest⟩ := r
      rw [hb] at h
      cases h
      obtain ⟨read, he, hr⟩ := Parser.reads_block.sound hb
      obtain ⟨t, ts, -, rfl, -⟩ := hr.opener
      have hlen := congrArg List.length he
      rw [List.length_drop, List.length_append, List.length_cons] at hlen
      refine ⟨by omega, by omega, ?_⟩
      have hcount : tokens.length - rest.length - start = (t :: ts).length := by
        rw [List.length_cons]
        omega
      rw [he, hcount, List.take_left]
      exact hr
  · rintro ⟨hs, hn, hb⟩
    have hread := Parser.reads_block.complete hb (tokens.drop next)
    have hcut : (tokens.drop start).take (next - start) ++ tokens.drop next =
        tokens.drop start := by
      have hd : tokens.drop next = (tokens.drop start).drop (next - start) := by
        rw [List.drop_drop]
        congr 1
        omega
      rw [hd, List.take_append_drop]
    rw [hcut] at hread
    rw [hread]
    simp only [List.length_drop]
    congr 2
    omega

/-- The parser accepts exactly the grammar. A list of tokens is a program if and only if it can be
cut into rule blocks with nothing else that opens a block; the cut is unique, and the rules are
those of its blocks. A block is read from its own tokens, whatever follows them. -/
theorem ofTokens_iff_cut (tokens : List Token) :
    (∀ program, Program.ofTokens tokens = .ok program ↔
      ∃ cut : Cut, cut.tokens = tokens ∧ cut.Spells program.rules) ∧
    (∀ (cut other : Cut) (rules others : List Rule), cut.tokens = tokens → other.tokens = tokens →
      cut.Spells rules → other.Spells others → cut = other ∧ rules = others) ∧
    ∀ start rule next, Rule.ofTokens tokens start = .ok (rule, next) ↔
      start ≤ next ∧ next ≤ tokens.length ∧ Block ((tokens.take next).drop start) rule := by
  refine ⟨fun program => ?_, ?_, fun start rule next => Rule.ofTokens_eq_ok_iff⟩
  · rw [Program.ofTokens_eq_ok_iff]
    constructor
    · exact Parser.cut_of_rules
    · rintro ⟨cut, rfl, hs⟩
      exact Parser.rules_of_cut hs
  · rintro cut other rules others rfl he hs ho
    refine ⟨Parser.cut_unique hs ho he.symm, ?_⟩
    have h := Parser.rules_of_cut hs
    rw [← he, Parser.rules_of_cut ho] at h
    exact (Except.ok.inj h).symm

end Automation
