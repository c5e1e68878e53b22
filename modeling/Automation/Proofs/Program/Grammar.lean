import Automation.Program.Parser

/-!
# The grammar of rules

The language of rule blocks as relations between tokens and what they say, one relation for each
category of the grammar and one constructor for each of its productions.
-/
namespace Automation

namespace Grammar

/-- `Arg := STRING | NUMBER`, the number one that can be read. -/
inductive Arg : Token → Argument → Prop
  | string {t : Token} (kind : t.kind = .string) : Arg t (.string t.value)
  | number {t : Token} {d : Double} (kind : t.kind = .number)
      (reads : Double.ofText? t.value = some d) : Arg t (.number d)

/-- `ArgList := Arg ( "," Arg )*` -/
inductive ArgList : List Token → List Argument → Prop
  | one {t : Token} {a : Argument} (arg : Arg t a) : ArgList [t] [a]
  | more {t comma : Token} {a : Argument} {ts : List Token} {as : List Argument} (arg : Arg t a)
      (separated : comma.isSymbol ",") (rest : ArgList ts as) :
      ArgList (t :: comma :: ts) (a :: as)

/-- `ArgList?` -/
inductive Args : List Token → List Argument → Prop
  | none : Args [] []
  | some {ts : List Token} {as : List Argument} (list : ArgList ts as) : Args ts as

/-- `ActionList := ( IDENTIFIER "(" ArgList? ")" )*` -/
inductive ActionList : List Token → List Action → Prop
  | nil : ActionList [] []
  | cons {name opening closing : Token} {args rest : List Token} {as : List Argument}
      {actions : List Action} (named : name.kind = .identifier) (opens : opening.isSymbol "(")
      (list : Args args as) (closes : closing.isSymbol ")") (more : ActionList rest actions) :
      ActionList (name :: opening :: (args ++ closing :: rest)) (⟨name.value, as⟩ :: actions)

/-- `COMPARISON`: an operator with the text of a comparison, or the keyword `contains`. -/
inductive Compares : Token → Comparison → Prop
  | operator {t : Token} {c : Comparison} (kind : t.kind = .operator) (text : t.value = c.text) :
      Compares t c
  | contains {t : Token} (keyword : t.isKeyword "contains") : Compares t .contains

/-- `VALUE` -/
def IsValue (t : Token) : Prop := t.kind = .number ∨ t.kind = .string ∨ t.kind = .identifier

/-- `UNIT` -/
def NamesUnit (t : Token) : Prop := t.kind = .keyword ∨ t.kind = .identifier

/-- `[ COMPARISON VALUE ]` after the name of an event. -/
inductive Test (event : String) : List Token → Option Condition → Prop
  | none : Test event [] none
  | some {mark value : Token} {c : Comparison} (compares : Compares mark c)
      (value_ok : IsValue value) :
      Test event [mark, value] (some ⟨event, c, value.value⟩)

/-- The tokens from the opening keyword of a block to the keyword before its actions. -/
inductive Head : Opener → List Token → Trigger → Prop
  | whenever {event mark : Token} {test : List Token} {c : Option Condition}
      (named : event.kind = .identifier) (tested : Test event.value test c)
      (starts : mark.isKeyword "then") :
      Head .whenever (event :: (test ++ [mark])) (.event event.value c)
  | on {event mark : Token} (named : event.kind = .identifier) (starts : mark.isKeyword "do") :
      Head .on [event, mark] (.event event.value none)
  | every {amount unit mark : Token} (counted : amount.kind = .number) (measured : NamesUnit unit)
      (starts : mark.isKeyword "do") :
      Head .every [amount, unit, mark] (.schedule (amount.value ++ " " ++ unit.value))

/-- What follows the opening keyword of a block. -/
inductive Body (opener : Opener) : List Token → Rule → Prop
  | mk {head list : List Token} {closing : Token} {trigger : Trigger} {actions : List Action}
      (starts : Head opener head trigger) (acts : ActionList list actions)
      (ends : closing.isKeyword "end") :
      Body opener (head ++ (list ++ [closing])) ⟨trigger, actions⟩

/-- `RuleBlock := WhenBlock | OnBlock | EveryBlock` -/
inductive Block : List Token → Rule → Prop
  | mk {opener : Opener} {word : Token} {body : List Token} {rule : Rule}
      (opens : word.isKeyword opener.word) (goes : Body opener body rule) :
      Block (word :: body) rule

end Grammar

theorem Token.isKeyword_iff {t : Token} {word : String} :
    t.isKeyword word ↔ t.kind = .keyword ∧ t.value = word := by
  simp [Token.isKeyword]

theorem Token.isSymbol_iff {t : Token} {text : String} :
    t.isSymbol text ↔ t.kind = .symbol ∧ t.value = text := by
  simp [Token.isSymbol]

theorem Opener.word_injective {a b : Opener} (h : a.word = b.word) : a = b := by
  cases a <;> cases b <;> first | rfl | exact absurd h (by decide)

theorem Opener.ofToken?_eq_some_iff {t : Token} {opener : Opener} :
    Opener.ofToken? t = some opener ↔ t.isKeyword opener.word := by
  constructor
  · intro h
    exact (List.find?_eq_some_iff_append.mp h).1
  · intro h
    cases hf : Opener.ofToken? t with
    | none =>
      have hn := List.find?_eq_none.mp hf opener (by cases opener <;> simp)
      exact absurd h hn
    | some other =>
      have ho : t.isKeyword other.word := (List.find?_eq_some_iff_append.mp hf).1
      rw [Token.isKeyword_iff] at h ho
      rw [Opener.word_injective (h.2.symm.trans ho.2)]

end Automation
