import Automation.Placeholder
import Mathlib.Data.List.Infix

/-!
# The placeholders of a template

A template is cut into literal parts, each with a placeholder behind it, and a rest in which no
opening is ever closed. Every opening is the first of what is left of the template and every key
ends at the first closing after it, so there is one way to cut only. Rendering puts the values in
the places of the placeholders. How a template is cut has nothing to do with the context, and what
is put in is not looked at again.
-/
namespace Automation.Placeholder

def opening : List Char := ['\x7b', '\x7b']

def closing : List Char := ['\x7d', '\x7d']

/-- The characters before and after the first occurrence of a mark. -/
structure CutAtFirst (mark chars before after : List Char) : Prop where
  whole : chars = before ++ mark ++ after
  first : ∀ other later, chars = other ++ mark ++ later → before.length ≤ other.length

namespace CutAtFirst

variable {mark chars before after other later : List Char}

theorem unique (h : CutAtFirst mark chars before after) (h' : CutAtFirst mark chars other later) :
    before = other ∧ after = later := by
  have hlength : before.length = other.length :=
    Nat.le_antisymm (h.first _ _ h'.whole) (h'.first _ _ h.whole)
  have hwhole := h.whole.symm.trans h'.whole
  rw [List.append_assoc, List.append_assoc] at hwhole
  obtain ⟨hbefore, hafter⟩ := List.append_inj hwhole hlength
  exact ⟨hbefore, List.append_cancel_left hafter⟩

/-- What is after any occurrence is after the first one. -/
theorem suffix (h : CutAtFirst mark chars before after) (ho : chars = other ++ mark ++ later) :
    later <:+ after := by
  have hlater : later <:+ chars := ⟨other ++ mark, ho.symm⟩
  have hafter : after <:+ chars := ⟨before ++ mark, h.whole.symm⟩
  refine List.suffix_of_suffix_length_le hlater hafter ?_
  have hle := h.first other later ho
  have hone := congrArg List.length (h.whole.symm.trans ho)
  simp only [List.length_append] at hone
  omega

end CutAtFirst

section Pair

variable {mark : Char} {chars before after : List Char}

theorem cutAtFirst_of_splitAtPair? (h : splitAtPair? mark chars = some (before, after)) :
    CutAtFirst [mark, mark] chars before after := by
  fun_induction splitAtPair? mark chars generalizing before after with
  | case1 a b rest hpair =>
    obtain ⟨rfl, rfl⟩ := hpair
    cases h
    exact ⟨rfl, fun _ _ _ => Nat.zero_le _⟩
  | case2 a b rest hpair ih =>
    obtain ⟨⟨p, q⟩, hp, hq⟩ := Option.map_eq_some_iff.mp h
    cases hq
    have hcut := ih hp
    refine ⟨congrArg (List.cons a) hcut.whole, fun other later ho => ?_⟩
    cases other with
    | nil =>
      obtain ⟨ha, hrest⟩ := List.cons.inj ho
      exact absurd ⟨ha, (List.cons.inj hrest).1⟩ hpair
    | cons c other => exact Nat.succ_le_succ (hcut.first other later (List.cons.inj ho).2)
  | case3 => cases h

/-- A pair that is there is found. -/
theorem exists_splitAtPair? (mark : Char) (before after : List Char) :
    ∃ cut, splitAtPair? mark (before ++ [mark, mark] ++ after) = some cut := by
  induction before with
  | nil => exact ⟨([], after), by simp [splitAtPair?]⟩
  | cons a before ih =>
    obtain ⟨cut, hcut⟩ := ih
    rw [List.cons_append, List.cons_append]
    cases htail : before ++ [mark, mark] ++ after with
    | nil => simp at htail
    | cons b rest =>
      rw [htail] at hcut
      rw [splitAtPair?]
      split
      · exact ⟨_, rfl⟩
      · exact ⟨_, congrArg (Option.map _) hcut⟩

theorem splitAtPair?_eq_some_iff :
    splitAtPair? mark chars = some (before, after) ↔
      CutAtFirst [mark, mark] chars before after := by
  refine ⟨cutAtFirst_of_splitAtPair?, fun h => ?_⟩
  obtain ⟨⟨other, later⟩, hcut⟩ := exists_splitAtPair? mark before after
  rw [← h.whole] at hcut
  obtain ⟨rfl, rfl⟩ := h.unique (cutAtFirst_of_splitAtPair? hcut)
  exact hcut

end Pair

/-- No opening is followed by a closing. -/
def Bare (chars : List Char) : Prop :=
  ∀ before key after, chars ≠ before ++ opening ++ key ++ closing ++ after

theorem first?_eq_some_iff {chars before key after : List Char} :
    first? chars = some (before, key, after) ↔
      ∃ inner, CutAtFirst opening chars before inner ∧ CutAtFirst closing inner key after := by
  simp only [first?, opening, closing, ← splitAtPair?_eq_some_iff]
  constructor
  · intro h
    split at h
    · cases h
    · next front inner ho =>
      split at h
      · cases h
      · next hc =>
        cases h
        exact ⟨inner, ho, hc⟩
  · rintro ⟨inner, ho, hc⟩
    rw [ho]
    simp only [hc]

theorem whole_of_cuts {chars literal inner key later : List Char}
    (opens : CutAtFirst opening chars literal inner) (closes : CutAtFirst closing inner key later) :
    chars = literal ++ opening ++ key ++ closing ++ later := by
  rw [opens.whole, closes.whole]
  simp only [List.append_assoc]

/-- If any opening is closed, the first one is. -/
theorem first?_eq_none_iff {chars : List Char} : first? chars = none ↔ Bare chars := by
  constructor
  · intro h before key after hchars
    have hopening : chars = before ++ opening ++ (key ++ closing ++ after) := by
      rw [hchars]
      simp only [List.append_assoc]
    obtain ⟨⟨literal, inner⟩, ho⟩ := exists_splitAtPair? '\x7b' before (key ++ closing ++ after)
    have opens : CutAtFirst opening chars literal inner := by
      rw [hopening]
      exact cutAtFirst_of_splitAtPair? ho
    -- the first opening is no later than the given one, so the closing is behind it as well
    obtain ⟨front, hfront⟩ := opens.suffix hopening
    obtain ⟨⟨name, later⟩, hc⟩ := exists_splitAtPair? '\x7d' (front ++ key) after
    have closes : CutAtFirst closing inner name later := by
      rw [← hfront, ← List.append_assoc, ← List.append_assoc]
      exact cutAtFirst_of_splitAtPair? hc
    rw [first?_eq_some_iff.mpr ⟨inner, opens, closes⟩] at h
    cases h
  · intro h
    cases hf : first? chars with
    | none => rfl
    | some cut =>
      obtain ⟨inner, opens, closes⟩ := first?_eq_some_iff.mp hf
      exact absurd (whole_of_cuts opens closes) (h _ _ _)

/-- A literal part of a template and the key of the placeholder behind it, blanks included. -/
structure Piece where
  literal : List Char
  key : List Char

namespace Piece

/-- The piece as it stands in the template. -/
def text (piece : Piece) : List Char := piece.literal ++ opening ++ piece.key ++ closing

/-- The name under which the context is asked. -/
def name (piece : Piece) : String := String.ofList (Text.trimChars piece.key)

end Piece

/-- The characters are the pieces and the rest. Each opening is the first of the characters that are
left, each key ends at the first closing after it, and the rest has no placeholder. -/
inductive Decomposes : List Char → List Piece → List Char → Prop where
  | rest {chars : List Char} (bare : Bare chars) : Decomposes chars [] chars
  | piece {chars literal inner key later rest : List Char} {pieces : List Piece}
      (opens : CutAtFirst opening chars literal inner) (closes : CutAtFirst closing inner key later)
      (more : Decomposes later pieces rest) : Decomposes chars (⟨literal, key⟩ :: pieces) rest

theorem exists_decomposes (chars : List Char) : ∃ pieces rest, Decomposes chars pieces rest := by
  cases h : first? chars with
  | none => exact ⟨[], chars, .rest (first?_eq_none_iff.mp h)⟩
  | some cut =>
    obtain ⟨literal, key, later⟩ := cut
    obtain ⟨inner, opens, closes⟩ := first?_eq_some_iff.mp h
    obtain ⟨pieces, rest, more⟩ := exists_decomposes later
    exact ⟨_, _, .piece opens closes more⟩
termination_by chars.length
decreasing_by exact length_first? h

/-- The characters with the values of the context in the places of the placeholders. -/
def filled (context : Context) (pieces : List Piece) (rest : List Char) : List Char :=
  (pieces.flatMap fun piece => piece.literal ++ ((context.get? piece.name).getD "").toList) ++ rest

theorem filled_congr {context other : Context} {pieces : List Piece}
    (h : ∀ piece ∈ pieces, context.get? piece.name = other.get? piece.name) (rest : List Char) :
    filled context pieces rest = filled other pieces rest := by
  have hpieces := List.flatMap_congr fun piece hpiece =>
    congrArg (fun value : Option String => piece.literal ++ (value.getD "").toList) (h piece hpiece)
  rw [filled, filled, hpieces]

/-- A value stands in the result as it is. -/
theorem infix_filled {context : Context} {pieces : List Piece} {piece : Piece} {value : String}
    (hpiece : piece ∈ pieces) (hvalue : context.get? piece.name = some value) (rest : List Char) :
    value.toList <:+: filled context pieces rest := by
  obtain ⟨before, after, rfl⟩ := List.append_of_mem hpiece
  refine ⟨filled context before piece.literal, filled context after rest, ?_⟩
  simp [filled, hvalue]

theorem renderChars_of_bare {chars : List Char} (h : Bare chars) (context : Context) :
    renderChars context chars = chars := by
  rw [renderChars]
  split
  · rfl
  · next hf => rw [first?_eq_none_iff.mpr h] at hf; cases hf

theorem renderChars_of_first? {chars before key after : List Char}
    (h : first? chars = some (before, key, after)) (context : Context) :
    renderChars context chars = before ++ valueOf context key ++ renderChars context after := by
  rw [renderChars]
  split
  · next hf => rw [h] at hf; cases hf
  · next hf => rw [h] at hf; cases hf; rfl

namespace Decomposes

variable {chars rest last : List Char} {pieces others : List Piece}

theorem whole (h : Decomposes chars pieces rest) : chars = pieces.flatMap Piece.text ++ rest := by
  induction h with
  | rest bare => rfl
  | piece opens closes more ih =>
    rw [List.flatMap_cons, List.append_assoc, ← ih]
    exact whole_of_cuts opens closes

theorem unique (h : Decomposes chars pieces rest) (h' : Decomposes chars others last) :
    others = pieces ∧ last = rest := by
  induction h generalizing others last with
  | rest bare =>
    cases h' with
    | rest => exact ⟨rfl, rfl⟩
    | piece opens closes more => exact absurd (whole_of_cuts opens closes) (bare _ _ _)
  | piece opens closes more ih =>
    cases h' with
    | rest bare => exact absurd (whole_of_cuts opens closes) (bare _ _ _)
    | piece opens' closes' more' =>
      obtain ⟨rfl, rfl⟩ := opens.unique opens'
      obtain ⟨rfl, rfl⟩ := closes.unique closes'
      obtain ⟨rfl, rfl⟩ := ih more'
      exact ⟨rfl, rfl⟩

theorem renderChars_eq (h : Decomposes chars pieces rest) (context : Context) :
    renderChars context chars = filled context pieces rest := by
  induction h with
  | rest bare => exact renderChars_of_bare bare context
  | piece opens closes more ih =>
    have hfirst := first?_eq_some_iff.mpr ⟨_, opens, closes⟩
    rw [renderChars_of_first? hfirst, ih]
    simp [filled, valueOf, Piece.name]

theorem toList_render {template : String} (h : Decomposes template.toList pieces rest)
    (context : Context) : (render context template).toList = filled context pieces rest := by
  rw [render, String.toList_ofList, h.renderChars_eq]

end Decomposes

/-- What rendering does to a template. There is one way to cut it into pieces and a rest, and that
way does not depend on a context. The result is the literal parts with the value of the trimmed key
after each, nothing where there is no value, and the rest. So each value stands in the result as it
is, braces included, and contexts that agree on the trimmed keys give the same result. -/
theorem render_decomposed (template : String) :
    ∃ pieces rest, Decomposes template.toList pieces rest ∧
      (∀ others last, Decomposes template.toList others last → others = pieces ∧ last = rest) ∧
      template.toList = pieces.flatMap Piece.text ++ rest ∧
      (∀ context, (render context template).toList = filled context pieces rest) ∧
      (∀ context, ∀ piece ∈ pieces, ∀ value, context.get? piece.name = some value →
        value.toList <:+: (render context template).toList) ∧
      ∀ context other, (∀ piece ∈ pieces, context.get? piece.name = other.get? piece.name) →
        render context template = render other template := by
  obtain ⟨pieces, rest, h⟩ := exists_decomposes template.toList
  refine ⟨pieces, rest, h, fun _ _ h' => h.unique h', h.whole, h.toList_render, ?_, ?_⟩
  · intro context piece hpiece value hvalue
    rw [h.toList_render]
    exact infix_filled hpiece hvalue rest
  · intro context other hagree
    rw [String.ext_iff, h.toList_render, h.toList_render]
    exact filled_congr hagree rest

/-- The first two braces open the placeholder and the first two close it. -/
example : render (Dict.ofList [("\x7ba", "A")]) "\x7b\x7b\x7ba\x7d\x7d\x7d" = "A\x7d" := by
  decide +kernel

end Automation.Placeholder
