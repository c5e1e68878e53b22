import Automation.Diagnostic
import Automation.Proofs.Number.Representable
import Automation.Proofs.Program.Cut

/-!
# Numbers in programs

Every number that a program gives to its commands is what a number token of its text says. So the
numbers are doubles as they can be. This goes along the grammar, from one argument to the rules of a
program.
-/
namespace Automation

open Grammar

/-- A number is a double as it can be. -/
def Argument.Representable (a : Argument) : Prop :=
  ∀ d, a = .number d → d.Representable

/-- If the argument is a number, one of the tokens says it. -/
def Argument.IsReadFrom (tokens : List Token) (a : Argument) : Prop :=
  ∀ d, a = .number d → ∃ t ∈ tokens, t.kind = .number ∧ Double.ofText? t.value = some d

theorem Argument.IsReadFrom.mono {tokens more : List Token} {a : Argument}
    (h : a.IsReadFrom tokens) (hs : tokens ⊆ more) : a.IsReadFrom more := by
  intro d hd
  obtain ⟨t, ht, hread⟩ := h d hd
  exact ⟨t, hs ht, hread⟩

theorem Argument.IsReadFrom.representable {tokens : List Token} {a : Argument}
    (h : a.IsReadFrom tokens) : a.Representable := by
  intro d hd
  obtain ⟨t, -, -, hread⟩ := h d hd
  exact Double.representable_of_text hread

namespace Grammar

theorem Arg.isReadFrom {t : Token} {a : Argument} (h : Arg t a) : a.IsReadFrom [t] := by
  intro d hd
  cases h with
  | string => cases hd
  | number hk hn =>
    cases hd
    exact ⟨t, List.mem_singleton_self t, hk, hn⟩

theorem ArgList.isReadFrom {ts : List Token} {as : List Argument} (h : ArgList ts as) :
    ∀ a ∈ as, a.IsReadFrom ts := by
  induction h with
  | one ha => exact List.forall_mem_singleton.mpr ha.isReadFrom
  | more ha _ _ ih =>
    refine List.forall_mem_cons.mpr ⟨ha.isReadFrom.mono (by simp), fun a hmem => ?_⟩
    refine (ih a hmem).mono fun t ht => ?_
    exact List.mem_cons_of_mem _ (List.mem_cons_of_mem _ ht)

theorem Args.isReadFrom {ts : List Token} {as : List Argument} (h : Args ts as) :
    ∀ a ∈ as, a.IsReadFrom ts := by
  cases h with
  | none => simp
  | some list => exact list.isReadFrom

theorem ActionList.isReadFrom {ts : List Token} {actions : List Action}
    (h : ActionList ts actions) :
    ∀ action ∈ actions, ∀ a ∈ action.arguments, a.IsReadFrom ts := by
  induction h with
  | nil => simp
  | cons _ _ list _ _ ih =>
    refine List.forall_mem_cons.mpr ⟨fun a ha => ?_, fun action haction a ha => ?_⟩
    · exact (list.isReadFrom a ha).mono fun t ht => by simp [ht]
    · exact (ih action haction a ha).mono fun t ht => by simp [ht]

theorem Block.isReadFrom {ts : List Token} {rule : Rule} (h : Block ts rule) :
    ∀ action ∈ rule.actions, ∀ a ∈ action.arguments, a.IsReadFrom ts := by
  cases h with
  | mk _ goes =>
    cases goes with
    | mk _ acts _ =>
      intro action haction a ha
      exact (acts.isReadFrom action haction a ha).mono fun t ht => by simp [ht]

end Grammar

/-- The numbers of a program are among those of the tokens that spell it. -/
theorem Cut.Spells.isReadFrom {cut : Cut} {rules : List Rule} (h : cut.Spells rules) :
    ∀ rule ∈ rules, ∀ action ∈ rule.actions, ∀ a ∈ action.arguments,
      a.IsReadFrom cut.tokens := by
  obtain ⟨pieces, tail⟩ := cut
  induction pieces generalizing rules with
  | nil =>
    obtain ⟨-, rfl⟩ := Cut.spells_nil_iff.mp h
    simp
  | cons piece pieces ih =>
    obtain ⟨gap, block⟩ := piece
    obtain ⟨-, rule, rest, rfl, hblock, hrest⟩ := Cut.spells_cons_iff.mp h
    rw [Cut.tokens_cons]
    refine List.forall_mem_cons.mpr ⟨fun action haction a ha => ?_, fun other ho => ?_⟩
    · exact (hblock.isReadFrom action haction a ha).mono fun t ht => by simp [ht]
    · intro action haction a ha
      exact (ih hrest other ho action haction a ha).mono fun t ht => by simp [ht]

/-- The numbers of a compiled program are said by the tokens of its text. -/
theorem Program.isReadFrom_of_compile {code : String} {program : Program}
    (h : Program.compile code = .ok program) :
    ∀ rule ∈ program.rules, ∀ action ∈ rule.actions, ∀ a ∈ action.arguments,
      a.IsReadFrom (Token.scan code) := by
  obtain ⟨cut, htokens, hspells⟩ := Parser.cut_of_rules (Program.ofTokens_eq_ok_iff.mp h)
  exact htokens ▸ hspells.isReadFrom

/-- The numbers of a compiled program are doubles as they can be. -/
theorem Program.representable_of_compile {code : String} {program : Program}
    (h : Program.compile code = .ok program) :
    ∀ rule ∈ program.rules, ∀ action ∈ rule.actions, ∀ a ∈ action.arguments, a.Representable :=
  fun rule hrule action haction a ha =>
    (Program.isReadFrom_of_compile h rule hrule action haction a ha).representable

end Automation
