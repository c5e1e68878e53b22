import Automation.Diagnostic
import Automation.Proofs.Program.Cut
import Automation.Proofs.Token.Span
import Mathlib.Data.List.Flatten

/-!
# Warnings

The search for warnings does not use the grammar: it takes any identifier before an opening
parenthesis for the name of a command. In a script that compiles this finds the calls and nothing
else, since no other place of a block has an identifier there. What the search reports is told here
by how the script is laid out: one warning for each call of a command that is not known, and one for
each run of tokens between the blocks, in the order of the text.
-/
namespace Automation

namespace Grammar

/-- A list of actions, with the tokens that name their commands. -/
inductive Calls : List Token → List Action → List Token → Prop
  | nil : Calls [] [] []
  | cons {name opening closing : Token} {args rest names : List Token} {as : List Argument}
      {actions : List Action} (named : name.kind = .identifier) (opens : opening.isSymbol "(")
      (list : Args args as) (closes : closing.isSymbol ")") (more : Calls rest actions names) :
      Calls (name :: opening :: (args ++ closing :: rest)) (⟨name.value, as⟩ :: actions)
        (name :: names)

/-- A rule block, with the tokens that name the commands of its actions. -/
inductive NamedBlock : List Token → Rule → List Token → Prop
  | mk {opener : Opener} {word closing : Token} {head list names : List Token} {trigger : Trigger}
      {actions : List Action} (opens : word.isKeyword opener.word)
      (starts : Head opener head trigger) (acts : Calls list actions names)
      (ends : closing.isKeyword "end") :
      NamedBlock (word :: (head ++ (list ++ [closing]))) ⟨trigger, actions⟩ names

theorem ActionList.calls {tokens : List Token} {actions : List Action}
    (h : ActionList tokens actions) : ∃ names, Calls tokens actions names := by
  induction h with
  | nil => exact ⟨[], .nil⟩
  | cons named opens list closes _ ih =>
    obtain ⟨names, hnames⟩ := ih
    exact ⟨_, .cons named opens list closes hnames⟩

theorem Calls.actionList {tokens names : List Token} {actions : List Action}
    (h : Calls tokens actions names) : ActionList tokens actions := by
  induction h with
  | nil => exact .nil
  | cons named opens list closes _ ih => exact .cons named opens list closes ih

theorem Block.named {block : List Token} {rule : Rule} (h : Block block rule) :
    ∃ names, NamedBlock block rule names := by
  cases h with
  | mk opens goes =>
    cases goes with
    | mk starts acts ends =>
      obtain ⟨names, hnames⟩ := acts.calls
      exact ⟨names, .mk opens starts hnames ends⟩

theorem NamedBlock.block {block names : List Token} {rule : Rule}
    (h : NamedBlock block rule names) : Block block rule := by
  cases h with
  | mk opens starts acts ends => exact .mk opens (.mk starts acts.actionList ends)

theorem Calls.values {tokens names : List Token} {actions : List Action}
    (h : Calls tokens actions names) : names.map Token.value = actions.map Action.command := by
  induction h with
  | nil => rfl
  | cons _ _ _ _ _ ih => exact congrArg (_ :: ·) ih

theorem Calls.sublist {tokens names : List Token} {actions : List Action}
    (h : Calls tokens actions names) : names.Sublist tokens := by
  induction h with
  | nil => exact .slnil
  | @cons name opening closing args rest names as actions _ _ _ _ _ ih =>
    have hrest : names.Sublist (args ++ closing :: rest) :=
      (ih.cons closing).trans (List.sublist_append_right args _)
    exact (hrest.cons opening).cons_cons name

theorem NamedBlock.values {block names : List Token} {rule : Rule}
    (h : NamedBlock block rule names) :
    names.map Token.value = rule.actions.map Action.command := by
  cases h with
  | mk opens starts acts ends => exact acts.values

theorem NamedBlock.sublist {block names : List Token} {rule : Rule}
    (h : NamedBlock block rule names) : names.Sublist block := by
  cases h with
  | @mk opener word closing head list names trigger actions opens starts acts ends =>
    have hlist : names.Sublist (list ++ [closing]) :=
      acts.sublist.trans (List.sublist_append_left list [closing])
    exact (hlist.trans (List.sublist_append_right head _)).cons word

/-- No token of an argument list is an identifier. -/
theorem Args.kind_ne {tokens : List Token} {as : List Argument} (h : Args tokens as) :
    ∀ t ∈ tokens, t.kind ≠ .identifier := by
  have harg : ∀ {t : Token} {a : Argument}, Arg t a → t.kind ≠ .identifier := by
    intro t a ha
    cases ha with
    | string hk => simp [hk]
    | number hk => simp [hk]
  cases h with
  | none => simp
  | some list =>
    induction list with
    | one ha => exact List.forall_mem_singleton.mpr (harg ha)
    | more ha hs _ ih =>
      have hcomma := (Token.isSymbol_iff.mp hs).1
      exact List.forall_mem_cons.mpr ⟨harg ha, List.forall_mem_cons.mpr ⟨by simp [hcomma], ih⟩⟩

end Grammar

open Grammar

namespace Diagnostic

variable {known : List String}

/-- A call of a command that is neither known nor built in. -/
def Unheard (known : List String) (name : Token) : Prop :=
  name.value ∉ known ∧ name.value ≠ "wait"

instance (known : List String) : DecidablePred (Unheard known) := fun name =>
  inferInstanceAs (Decidable (name.value ∉ known ∧ name.value ≠ "wait"))

section Search

theorem unknownCalls_cons_of_kind {t : Token} (h : t.kind ≠ .identifier) (rest : List Token) :
    unknownCalls known (t :: rest) = unknownCalls known rest := by
  cases rest with
  | nil => rfl
  | cons mark rest => simp [unknownCalls, h]

theorem unknownCalls_cons_of_mark {t mark : Token} (h : ¬ mark.isSymbol "(") (rest : List Token) :
    unknownCalls known (t :: mark :: rest) = unknownCalls known (mark :: rest) := by
  simp [unknownCalls, h]

theorem unknownCalls_append {front : List Token} (h : ∀ t ∈ front, t.kind ≠ .identifier)
    (rest : List Token) : unknownCalls known (front ++ rest) = unknownCalls known rest := by
  induction front with
  | nil => rfl
  | cons t front ih =>
    obtain ⟨ht, hfront⟩ := List.forall_mem_cons.mp h
    rw [List.cons_append, unknownCalls_cons_of_kind ht, ih hfront]

/-- A keyword does not open a list of arguments, and names no command. -/
theorem unknownCalls_keyword {t mark : Token} {word : String} (h : mark.isKeyword word)
    (rest : List Token) :
    unknownCalls known (t :: mark :: rest) = unknownCalls known rest := by
  have hk := (Token.isKeyword_iff.mp h).1
  have hmark : ¬ mark.isSymbol "(" := by simp [Token.isSymbol_iff, hk]
  rw [unknownCalls_cons_of_mark hmark, unknownCalls_cons_of_kind (by simp [hk])]

/-- Before the actions of a block nothing looks like a call. -/
theorem unknownCalls_head {opener : Opener} {head : List Token} {trigger : Trigger}
    (h : Head opener head trigger) (rest : List Token) :
    unknownCalls known (head ++ rest) = unknownCalls known rest := by
  cases h with
  | @whenever event mark test c named tested starts =>
    cases tested with
    | none => exact unknownCalls_keyword starts rest
    | @some compare value c compares value_ok =>
      have hkind : compare.kind = .operator ∨ compare.kind = .keyword := by
        cases compares with
        | operator kind _ => exact Or.inl kind
        | contains keyword => exact Or.inr (Token.isKeyword_iff.mp keyword).1
      have hmark : ¬ compare.isSymbol "(" := by
        rcases hkind with hk | hk <;> simp [Token.isSymbol_iff, hk]
      have hname : compare.kind ≠ .identifier := by
        rcases hkind with hk | hk <;> simp [hk]
      change unknownCalls known (event :: compare :: value :: mark :: rest) = _
      rw [unknownCalls_cons_of_mark hmark, unknownCalls_cons_of_kind hname,
        unknownCalls_keyword starts]
  | on named starts => exact unknownCalls_keyword starts rest
  | @every amount unit mark counted measured starts =>
    change unknownCalls known (amount :: unit :: mark :: rest) = _
    rw [unknownCalls_cons_of_kind (by simp [counted]), unknownCalls_keyword starts]

/-- In a list of actions exactly the names of the commands look like calls. -/
theorem unknownCalls_calls {tokens names : List Token} {actions : List Action}
    (h : Calls tokens actions names) (rest : List Token) :
    unknownCalls (known ++ builtinCommands) (tokens ++ rest) =
      (names.filter (Unheard known)).map unknownCommand ++
        unknownCalls (known ++ builtinCommands) rest := by
  induction h with
  | nil => rfl
  | @cons name opening closing args more names as actions named opens list closes _ ih =>
    have hopening : opening.kind ≠ .identifier := by simp [(Token.isSymbol_iff.mp opens).1]
    have hclosing : closing.kind ≠ .identifier := by simp [(Token.isSymbol_iff.mp closes).1]
    have hlater : unknownCalls (known ++ builtinCommands)
        (opening :: (args ++ closing :: (more ++ rest))) =
          (names.filter (Unheard known)).map unknownCommand ++
            unknownCalls (known ++ builtinCommands) rest := by
      rw [unknownCalls_cons_of_kind hopening, unknownCalls_append list.kind_ne,
        unknownCalls_cons_of_kind hclosing, ih]
    have hknown : (name.kind = .identifier ∧ opening.isSymbol "(" ∧
        ¬ (known ++ builtinCommands).contains name.value) ↔ Unheard known name := by
      simp [named, opens, builtinCommands, Unheard]
    rw [List.cons_append, List.cons_append, List.append_assoc, List.cons_append, unknownCalls,
      hlater]
    simp only [hknown]
    by_cases hn : Unheard known name
    · rw [if_pos hn, List.filter_cons_of_pos (by simpa using hn)]
      rfl
    · rw [if_neg hn, List.filter_cons_of_neg (by simpa using hn)]

theorem unknownCalls_block {block names : List Token} {rule : Rule}
    (h : NamedBlock block rule names) :
    unknownCalls (known ++ builtinCommands) block =
      (names.filter (Unheard known)).map unknownCommand := by
  cases h with
  | mk opens starts acts ends =>
    have hword := (Token.isKeyword_iff.mp opens).1
    rw [unknownCalls_cons_of_kind (by simp [hword]), unknownCalls_head starts,
      unknownCalls_calls acts]
    exact List.append_nil _

theorem warnings_stray {gap : List Token} (hg : Stray gap) (stray : Option Token)
    (rest : List Token) :
    warnings known stray (gap ++ rest) = warnings known (stray.or gap.head?) rest := by
  induction gap generalizing stray with
  | nil => rw [List.nil_append, List.head?_nil, Option.or_none]
  | cons t gap ih =>
    obtain ⟨ht, hg⟩ := stray_cons.mp hg
    rw [List.cons_append, warnings, ht]
    change warnings known (stray.or (some t)) (gap ++ rest) = _
    rw [ih hg]
    cases stray <;> rfl

theorem warnings_block {block : List Token} {rule : Rule} (hb : Block block rule)
    (stray : Option Token) (rest : List Token) :
    warnings known stray (block ++ rest) =
      (stray.map ignored).toList ++ unknownCalls known block ++ warnings known none rest := by
  cases hb with
  | @mk opener word body rule hw hb =>
    have hread := (Parser.reads_blockBody opener).complete hb rest
    rw [List.cons_append, warnings]
    split
    · next hn =>
      rw [Opener.ofToken?_eq_some_iff.mpr hw] at hn
      cases hn
    · next other ho =>
      obtain rfl := Option.some.inj (ho.symm.trans (Opener.ofToken?_eq_some_iff.mpr hw))
      split
      · next he =>
        rw [hread] at he
        cases he
      · next read later he =>
        obtain ⟨rfl, rfl⟩ := Prod.mk.inj (Except.ok.inj (hread.symm.trans he))
        have hcount : (body ++ rest).length + 1 - rest.length = (word :: body).length := by
          rw [List.length_append, List.length_cons]
          omega
        rw [hcount, ← List.cons_append, List.take_left]

end Search

end Diagnostic

/-- A rule block, with the tokens before it that belong to none, what it says, and the tokens that
name the commands of its actions. -/
structure Stretch where
  gap : List Token
  block : List Token
  rule : Rule
  names : List Token

/-- How a script is laid out: its blocks, and the tokens after the last. -/
structure Layout where
  stretches : List Stretch
  tail : List Token

def Token.place (t : Token) : Position := ⟨t.line, t.column⟩

def Diagnostic.place (d : Diagnostic) : Position := ⟨d.line, d.column⟩

namespace Layout

def tokens (layout : Layout) : List Token :=
  (layout.stretches.flatMap fun s => s.gap ++ s.block) ++ layout.tail

def rules (layout : Layout) : List Rule := layout.stretches.map Stretch.rule

/-- The tokens that name the commands of the actions, in the order of the text. -/
def names (layout : Layout) : List Token := layout.stretches.flatMap Stretch.names

/-- The first tokens of the runs of tokens that belong to no block. There is a block between two
gaps, so a gap that has tokens is a run that cannot be made longer. -/
def strays (layout : Layout) : List Token :=
  (layout.stretches.flatMap fun s => s.gap.head?.toList) ++ layout.tail.head?.toList

/-- The blocks are blocks, and nothing else opens one. -/
structure Sound (layout : Layout) : Prop where
  gaps : ∀ s ∈ layout.stretches, Stray s.gap
  tail : Stray layout.tail
  blocks : ∀ s ∈ layout.stretches, NamedBlock s.block s.rule s.names

/-- The tokens of a program are laid out as its blocks. -/
theorem exists_of_spells {cut : Cut} {rules : List Rule} (h : cut.Spells rules) :
    ∃ layout : Layout, layout.Sound ∧ layout.tokens = cut.tokens ∧ layout.rules = rules := by
  obtain ⟨pieces, tail⟩ := cut
  induction pieces generalizing rules with
  | nil =>
    obtain ⟨htail, rfl⟩ := Cut.spells_nil_iff.mp h
    exact ⟨⟨[], tail⟩, ⟨by simp, htail, by simp⟩, rfl, rfl⟩
  | cons piece pieces ih =>
    obtain ⟨gap, block⟩ := piece
    obtain ⟨hgap, rule, rest, rfl, hblock, hrest⟩ := Cut.spells_cons_iff.mp h
    obtain ⟨⟨stretches, tail'⟩, ⟨hgaps, htail, hblocks⟩, htokens, rfl⟩ := ih hrest
    obtain ⟨names, hnames⟩ := hblock.named
    refine ⟨⟨⟨gap, block, rule, names⟩ :: stretches, tail'⟩, ⟨?_, htail, ?_⟩, ?_, rfl⟩
    · exact List.forall_mem_cons.mpr ⟨hgap, hgaps⟩
    · exact List.forall_mem_cons.mpr ⟨hnames, hblocks⟩
    · rw [Cut.tokens_cons, ← htokens]
      simp [tokens]

/-- The names are those of the commands of the actions, in their order. -/
theorem Sound.values_names {layout : Layout} (h : layout.Sound) :
    layout.names.map Token.value =
      (layout.rules.flatMap Rule.actions).map Action.command := by
  obtain ⟨stretches, tail⟩ := layout
  obtain ⟨-, -, hblocks⟩ := h
  simp only [names, rules] at *
  induction stretches with
  | nil => rfl
  | cons s stretches ih =>
    obtain ⟨hblock, hblocks⟩ := List.forall_mem_cons.mp hblocks
    rw [List.flatMap_cons, List.map_append, hblock.values, ih hblocks, List.map_cons,
      List.flatMap_cons, List.map_append]

end Layout

section Reports

variable (known : List String)

/-- The tokens of which the warnings of a block and of the run before it tell. -/
def Stretch.marks (s : Stretch) : List Token :=
  s.gap.head?.toList ++ s.names.filter (Diagnostic.Unheard known)

def Stretch.warnings (s : Stretch) : List Diagnostic :=
  s.gap.head?.toList.map Diagnostic.ignored ++
    (s.names.filter (Diagnostic.Unheard known)).map Diagnostic.unknownCommand

namespace Layout

/-- The tokens of which the warnings of a script tell, in the order of the text. -/
def marks (layout : Layout) : List Token :=
  layout.stretches.flatMap (Stretch.marks known) ++ layout.tail.head?.toList

/-- The warnings of a script, block by block. -/
def warnings (layout : Layout) : List Diagnostic :=
  layout.stretches.flatMap (Stretch.warnings known) ++
    layout.tail.head?.toList.map Diagnostic.ignored

variable {known}

/-- What the search reports of a script that is laid out like this. -/
theorem Sound.warnings_eq {layout : Layout} (h : layout.Sound) :
    Diagnostic.warnings (known ++ Diagnostic.builtinCommands) none layout.tokens =
      layout.warnings known := by
  obtain ⟨stretches, tail⟩ := layout
  obtain ⟨hgaps, htail, hblocks⟩ := h
  simp only [tokens, warnings] at *
  induction stretches with
  | nil =>
    rw [List.flatMap_nil, List.nil_append, ← List.append_nil tail,
      Diagnostic.warnings_stray htail, Diagnostic.warnings]
    cases tail <;> simp
  | cons s stretches ih =>
    obtain ⟨hgap, hgaps⟩ := List.forall_mem_cons.mp hgaps
    obtain ⟨hblock, hblocks⟩ := List.forall_mem_cons.mp hblocks
    rw [List.flatMap_cons, List.flatMap_cons, List.append_assoc, List.append_assoc,
      Diagnostic.warnings_stray hgap, Diagnostic.warnings_block hblock.block,
      Diagnostic.unknownCalls_block hblock, ih hgaps hblocks, List.append_assoc, Stretch.warnings]
    cases s.gap <;> simp

theorem place_warnings (layout : Layout) :
    (layout.warnings known).map Diagnostic.place = (layout.marks known).map Token.place := by
  have hignored : Diagnostic.place ∘ Diagnostic.ignored = Token.place := rfl
  have hunknown : Diagnostic.place ∘ Diagnostic.unknownCommand = Token.place := rfl
  have hs : ∀ s : Stretch, (s.warnings known).map Diagnostic.place =
      (s.marks known).map Token.place := by
    intro s
    rw [Stretch.warnings, Stretch.marks, List.map_append, List.map_append, List.map_map,
      List.map_map, hignored, hunknown]
  simp only [warnings, marks, List.map_append, List.map_flatMap, hs, List.map_map, hignored]

theorem head?_sublist (tokens : List Token) : tokens.head?.toList.Sublist tokens := by
  cases tokens with
  | nil => exact .slnil
  | cons t rest => exact (List.nil_sublist rest).cons_cons t

theorem Sound.marks_sublist {layout : Layout} (h : layout.Sound) :
    (layout.marks known).Sublist layout.tokens := by
  obtain ⟨stretches, tail⟩ := layout
  obtain ⟨-, -, hblocks⟩ := h
  simp only [marks, tokens] at *
  refine List.Sublist.append ?_ (head?_sublist tail)
  induction stretches with
  | nil => exact .slnil
  | cons s stretches ih =>
    obtain ⟨hblock, hblocks⟩ := List.forall_mem_cons.mp hblocks
    rw [List.flatMap_cons, List.flatMap_cons]
    refine List.Sublist.append ?_ (ih hblocks)
    exact (head?_sublist s.gap).append (List.filter_sublist.trans hblock.sublist)

/-- What is reported of a script: warnings only, one further on in the text than the one before, and
they are one for each call of a command that is neither known nor built in, in the order of the
calls, and one for each run of tokens that belong to no block, in the order of the runs. -/
structure Reported (known : List String) (layout : Layout) (ds : List Diagnostic) : Prop where
  warnings : ∀ d ∈ ds, d.severity = .warning
  forward : ds.Pairwise fun a b => a.place.Before b.place
  each : ds.Perm ((layout.names.filter (Diagnostic.Unheard known)).map Diagnostic.unknownCommand ++
    layout.strays.map Diagnostic.ignored)
  calls : ((layout.names.filter (Diagnostic.Unheard known)).map
    Diagnostic.unknownCommand).Sublist ds
  runs : (layout.strays.map Diagnostic.ignored).Sublist ds

theorem flatMap_sublist {f g : Stretch → List Diagnostic} (h : ∀ s, (f s).Sublist (g s))
    (stretches : List Stretch) : (stretches.flatMap f).Sublist (stretches.flatMap g) := by
  induction stretches with
  | nil => exact .slnil
  | cons s stretches ih => exact (h s).append ih

theorem calls_eq (layout : Layout) :
    (layout.names.filter (Diagnostic.Unheard known)).map Diagnostic.unknownCommand =
      layout.stretches.flatMap fun s =>
        (s.names.filter (Diagnostic.Unheard known)).map Diagnostic.unknownCommand := by
  simp only [names, List.filter_flatMap, List.map_flatMap]

theorem runs_eq (layout : Layout) :
    layout.strays.map Diagnostic.ignored =
      (layout.stretches.flatMap fun s => s.gap.head?.toList.map Diagnostic.ignored) ++
        layout.tail.head?.toList.map Diagnostic.ignored := by
  simp only [strays, List.map_append, List.map_flatMap]

theorem Sound.reported {layout : Layout} (h : layout.Sound)
    (hsorted : layout.tokens.Pairwise fun a b => a.place.Before b.place) :
    Reported known layout (layout.warnings known) := by
  constructor
  · intro d hd
    simp only [warnings, Stretch.warnings, List.mem_append, List.mem_flatMap, List.mem_map] at hd
    rcases hd with ⟨s, -, ⟨t, -, rfl⟩ | ⟨t, -, rfl⟩⟩ | ⟨t, -, rfl⟩ <;> rfl
  · have hmarks : (layout.marks known).Sublist layout.tokens := h.marks_sublist
    have hplaces : ((layout.warnings known).map Diagnostic.place).Pairwise Position.Before := by
      rw [place_warnings, List.pairwise_map]
      exact hsorted.sublist hmarks
    exact List.pairwise_map.mp hplaces
  · rw [calls_eq, runs_eq, warnings, ← List.append_assoc]
    refine List.Perm.append_right _ ?_
    refine (List.flatMap_append_perm layout.stretches _ _).symm.trans ?_
    exact List.perm_append_comm
  · rw [calls_eq, warnings]
    refine (flatMap_sublist (fun s => ?_) _).trans (List.sublist_append_left _ _)
    exact List.sublist_append_right _ _
  · rw [runs_eq, warnings]
    refine List.Sublist.append (flatMap_sublist (fun s => ?_) _) (List.Sublist.refl _)
    exact List.sublist_append_left _ _

end Layout

end Reports

/-- The search for warnings in some tokens comes to look at these. -/
inductive Searched (tokens : List Token) : List Token → Prop
  | start : Searched tokens tokens
  | stray {t : Token} {rest : List Token} (h : Searched tokens (t :: rest))
      (ht : Opener.ofToken? t = none) : Searched tokens rest
  | block {t : Token} {rest later : List Token} {opener : Opener} {rule : Rule}
      (h : Searched tokens (t :: rest)) (ht : Opener.ofToken? t = some opener)
      (hb : Parser.blockBody opener rest = .ok (rule, later)) : Searched tokens later

/-- Where the search comes to in a program, the parser has come too. -/
theorem Searched.rules {tokens here : List Token} (h : Searched tokens here) {rs : List Rule}
    (hr : Parser.rules tokens = .ok rs) : ∃ rest, Parser.rules here = .ok rest := by
  induction h with
  | start => exact ⟨rs, hr⟩
  | @stray t rest _ ht ih =>
    obtain ⟨later, hlater⟩ := ih
    rw [Parser.rules, ht] at hlater
    exact ⟨later, hlater⟩
  | block _ ht hb ih =>
    obtain ⟨more, hmore⟩ := ih
    rw [Parser.rules_of_opener ht, hb] at hmore
    change (Parser.rules _ >>= _) = _ at hmore
    cases hrest : Parser.rules _ with
    | error stuck =>
      rw [hrest] at hmore
      cases hmore
    | ok rest => exact ⟨rest, rfl⟩

theorem Searched.blockBody {tokens rest : List Token} {t : Token} {opener : Opener}
    {rs : List Rule} (hr : Parser.rules tokens = .ok rs) (h : Searched tokens (t :: rest))
    (ht : Opener.ofToken? t = some opener) :
    ∃ rule later, Parser.blockBody opener rest = .ok (rule, later) := by
  obtain ⟨more, hmore⟩ := h.rules hr
  rw [Parser.rules_of_opener ht] at hmore
  cases hb : Parser.blockBody opener rest with
  | error stuck =>
    rw [hb] at hmore
    cases hmore
  | ok r => exact ⟨r.1, r.2, rfl⟩

theorem Token.scan_sorted (code : String) :
    (Token.scan code).Pairwise fun a b => a.place.Before b.place := by
  obtain ⟨spans, h⟩ := Token.covers_scanFrom Position.start code.toList [] rfl
  exact h.sorted

/-- What is reported of a script. If it does not compile, that is its one error. If it compiles, its
tokens are laid out as the blocks of its rules with runs of other tokens between them, and exactly
the calls of commands that nobody knows and the runs are reported, as warnings and in the order of
the text, each at its first token. The search for them never comes to a block that the parser
refuses. -/
theorem allOf_reported (code : String) (known : List String) :
    match Program.compile code with
    | .error e => Diagnostic.errorsOf code = [.ofSyntaxError e] ∧
        Diagnostic.allOf code known = [.ofSyntaxError e]
    | .ok program => ∃ layout : Layout, layout.Sound ∧ layout.tokens = Token.scan code ∧
        layout.rules = program.rules ∧
        layout.names.map Token.value = program.actions.map Action.command ∧
        layout.Reported known (Diagnostic.allOf code known) ∧
        ∀ t rest opener, Searched (Token.scan code) (t :: rest) →
          Opener.ofToken? t = some opener →
            ∃ rule later, Parser.blockBody opener rest = .ok (rule, later) := by
  cases hc : Program.compile code with
  | error e =>
    have herrors : Diagnostic.errorsOf code = [.ofSyntaxError e] := by
      rw [Diagnostic.errorsOf, hc]
    exact ⟨herrors, by rw [Diagnostic.allOf, herrors]⟩
  | ok program =>
    have herrors : Diagnostic.errorsOf code = [] := by rw [Diagnostic.errorsOf, hc]
    have hrules := Program.ofTokens_eq_ok_iff.mp hc
    obtain ⟨cut, hcut, hspells⟩ := Parser.cut_of_rules hrules
    obtain ⟨layout, hsound, htokens, hlaid⟩ := Layout.exists_of_spells hspells
    have hscan : layout.tokens = Token.scan code := htokens.trans hcut
    have hall : Diagnostic.allOf code known = layout.warnings known := by
      rw [Diagnostic.allOf, herrors, ← hscan]
      exact hsound.warnings_eq
    refine ⟨layout, hsound, hscan, hlaid, ?_, ?_, fun t rest opener h ht => h.blockBody hrules ht⟩
    · rw [hsound.values_names, hlaid]
      rfl
    · rw [hall]
      exact hsound.reported (hscan ▸ Token.scan_sorted code)

end Automation
