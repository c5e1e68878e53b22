import Automation.Proofs.Dict
import Automation.Proofs.Placeholder.Decomposition

/-!
# Rendering twice

Values without an opening brace leave nothing to render: no opening can begin in a literal part or
in a value, so none is put together where parts and values meet, and the openings of the rest stay
without a closing. What is rendered has no placeholder left, and rendering it again changes nothing.
-/
namespace Automation.Placeholder

/-- No value of the context has an opening brace. -/
def BraceFree (context : Context) : Prop := ∀ value ∈ context.values, '\x7b' ∉ value.toList

instance : DecidablePred BraceFree := fun context =>
  inferInstanceAs (Decidable (∀ value ∈ context.values, '\x7b' ∉ value.toList))

/-- No opening begins in the front: the first one is found in what is behind it, whatever that
is. -/
def IsPassed (front : List Char) : Prop := ∀ later,
  splitAtPair? '\x7b' (front ++ later) =
    (splitAtPair? '\x7b' later).map fun cut => (front ++ cut.1, cut.2)

namespace IsPassed

theorem nil : IsPassed [] := fun later => by simp

theorem append {front next : List Char} (h : IsPassed front) (h' : IsPassed next) :
    IsPassed (front ++ next) := fun later => by
  rw [List.append_assoc, h, h', Option.map_map]
  simp [Function.comp_def]

theorem single {c : Char} (h : c ≠ '\x7b') : IsPassed [c] := fun later => by
  cases later with
  | nil => rfl
  | cons d later => simp [splitAtPair?, h]

/-- Two characters that are no opening keep a front from ending in the first half of one. -/
theorem cons {a b : Char} {front : List Char} (h : ¬ (a = '\x7b' ∧ b = '\x7b'))
    (hfront : IsPassed (b :: front)) : IsPassed (a :: b :: front) := fun later => by
  have hlater := hfront later
  rw [List.cons_append] at hlater
  rw [List.cons_append, List.cons_append, splitAtPair?, if_neg h, hlater, Option.map_map]
  simp [Function.comp_def]

theorem of_braceFree {chars : List Char} (h : '\x7b' ∉ chars) : IsPassed chars := by
  induction chars with
  | nil => exact nil
  | cons c chars ih =>
    obtain ⟨hc, hchars⟩ := List.ne_and_not_mem_of_not_mem_cons h
    exact (single hc.symm).append (ih hchars)

/-- What is before the first opening. -/
theorem of_splitAtPair? {chars before after : List Char}
    (h : splitAtPair? '\x7b' chars = some (before, after)) : IsPassed before := by
  fun_induction splitAtPair? '\x7b' chars generalizing before after with
  | case1 a b rest hpair =>
    cases h
    exact nil
  | case2 a b rest hpair ih =>
    obtain ⟨⟨p, q⟩, hp, hq⟩ := Option.map_eq_some_iff.mp h
    cases hq
    have hwhole := (cutAtFirst_of_splitAtPair? hp).whole
    -- what follows `a` is `b` in any case: it is in the front, or the opening begins with it
    cases p with
    | nil =>
      have hb : b = '\x7b' := (List.cons.inj hwhole).1
      exact single fun ha => hpair ⟨ha, hb⟩
    | cons b' p =>
      obtain rfl : b = b' := (List.cons.inj hwhole).1
      exact (ih hp).cons hpair
  | case3 => cases h

end IsPassed

theorem first?_append {front : List Char} (h : IsPassed front) (later : List Char) :
    first? (front ++ later) = none ↔ first? later = none := by
  simp only [first?, h later]
  cases splitAtPair? '\x7b' later with
  | none => rfl
  | some cut => cases hclose : splitAtPair? '\x7d' cut.2 <;> simp [hclose]

theorem brace_notMem_valueOf {context : Context} (h : BraceFree context) (key : List Char) :
    '\x7b' ∉ valueOf context key := by
  rw [valueOf]
  cases hget : context.get? (String.ofList (Text.trimChars key)) with
  | none => simp
  | some value => exact h value (List.mem_map_of_mem (Dict.get?_eq_some_iff.mp hget))

/-- What is rendered has no placeholder. -/
theorem first?_renderChars {context : Context} (h : BraceFree context) (chars : List Char) :
    first? (renderChars context chars) = none := by
  cases hfirst : first? chars with
  | none => rwa [renderChars_of_bare (first?_eq_none_iff.mp hfirst)]
  | some cut =>
    obtain ⟨before, key, after⟩ := cut
    obtain ⟨inner, opens, -⟩ := first?_eq_some_iff.mp hfirst
    have hbefore : IsPassed before := .of_splitAtPair? (splitAtPair?_eq_some_iff.mpr opens)
    have hvalue : IsPassed (valueOf context key) := .of_braceFree (brace_notMem_valueOf h key)
    rw [renderChars_of_first? hfirst, first?_append (hbefore.append hvalue)]
    exact first?_renderChars h after
termination_by chars.length
decreasing_by exact length_first? hfirst

theorem bare_render {context : Context} (h : BraceFree context) (text : String) :
    Bare (render context text).toList := by
  rw [render, String.toList_ofList]
  exact first?_eq_none_iff.mp (first?_renderChars h _)

theorem render_render {context : Context} (h : BraceFree context) (text : String) :
    render context (render context text) = render context text := by
  rw [render, renderChars_of_bare (bare_render h text), String.ofList_toList]

mutual

theorem renderValue_renderValue {context : Context} (h : BraceFree context) :
    ∀ value : Json, renderValue context (renderValue context value) = renderValue context value
  | .null | .bool _ | .int _ | .real _ => rfl
  | .string s => congrArg Json.string (render_render h s)
  | .array items => congrArg Json.array (renderItems_renderItems h items)
  | .object members => congrArg Json.object (renderMembers_renderMembers h members)

theorem renderItems_renderItems {context : Context} (h : BraceFree context) :
    ∀ items : List Json, renderItems context (renderItems context items) = renderItems context items
  | [] => rfl
  | value :: rest => by
    rw [renderItems, renderItems, renderValue_renderValue h value, renderItems_renderItems h rest]

theorem renderMembers_renderMembers {context : Context} (h : BraceFree context) :
    ∀ members : List (String × Json),
      renderMembers context (renderMembers context members) = renderMembers context members
  | [] => rfl
  | (key, value) :: rest => by
    rw [renderMembers, renderMembers, renderValue_renderValue h value,
      renderMembers_renderMembers h rest]

end

/-- In a context without opening braces, rendering leaves no placeholder and makes none, so a second
time it changes nothing, be it in a text or in a value. -/
theorem renders_once {context : Context} (h : BraceFree context) :
    (∀ value, renderValue context (renderValue context value) = renderValue context value) ∧
      ∀ text, Bare (render context text).toList ∧
        render context (render context text) = render context text :=
  ⟨renderValue_renderValue h, fun text => ⟨bare_render h text, render_render h text⟩⟩

/-- A placeholder without a value goes from between two single braces, and an opening at the end is
not closed by what is put in before it. -/
theorem renders_once_seams :
    let context : Context := Dict.ofList [("user", "\x7d\x7d")]
    let text := "\x7bx\x7b\x7bgone\x7d\x7d\x7by\x7d\x7d \x7b\x7buser\x7d\x7d \x7b\x7buser"
    let rendered := "\x7bx\x7by\x7d\x7d \x7d\x7d \x7b\x7buser"
    let value : Json := .object [("\x7b\x7buser\x7d\x7d", .array [.string text, .null])]
    BraceFree context ∧ render context text = rendered ∧ render context rendered = rendered ∧
      renderValue context (renderValue context value) = renderValue context value := by
  intro context text rendered value
  have hfree : BraceFree context := by decide +kernel
  have hrendered : render context text = rendered := by decide +kernel
  obtain ⟨hvalue, htext⟩ := renders_once hfree
  refine ⟨hfree, hrendered, ?_, hvalue value⟩
  rw [← hrendered]
  exact (htext text).2

end Automation.Placeholder
