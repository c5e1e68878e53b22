import Automation.Json.Basic
import Automation.Text.Blank
import Automation.Trigger

/-!
# Placeholders

A placeholder is a key between double braces and stands for the entry of the context under that
key, blanks around the key aside; a missing entry is empty. A text is gone through once from the
left. What is put in is not looked at again, and an opening that is never closed stays as it is.
-/
namespace Automation.Placeholder

/-- Splits a text at the first pair of the given character: what is before and what is after. -/
def splitAtPair? (mark : Char) : List Char → Option (List Char × List Char)
  | a :: b :: rest =>
    if a = mark ∧ b = mark then some ([], rest)
    else (splitAtPair? mark (b :: rest)).map fun (before, after) => (a :: before, after)
  | _ => none

theorem length_splitAtPair? {mark : Char} {chars before after : List Char}
    (h : splitAtPair? mark chars = some (before, after)) :
    before.length + after.length + 2 = chars.length := by
  fun_induction splitAtPair? mark chars generalizing before after with
  | case1 a b rest => cases h; simp
  | case2 a b rest _ ih =>
    obtain ⟨⟨p, q⟩, hp, hq⟩ := Option.map_eq_some_iff.1 h
    cases hq
    have := ih hp
    simp only [List.length_cons] at this ⊢
    omega
  | case3 => cases h

/-- The first placeholder of a text: what is before it, its key, and what is after it. -/
def first? (chars : List Char) : Option (List Char × List Char × List Char) :=
  match splitAtPair? '\x7b' chars with
  | none => none
  | some (before, rest) =>
    match splitAtPair? '\x7d' rest with
    | none => none
    | some (key, after) => some (before, key, after)

theorem length_first? {chars before key after : List Char}
    (h : first? chars = some (before, key, after)) : after.length < chars.length := by
  simp only [first?] at h
  split at h
  · cases h
  · next ho =>
    split at h
    · cases h
    · next hc =>
      cases h
      have := length_splitAtPair? ho
      have := length_splitAtPair? hc
      omega

/-- What a key stands for. -/
def valueOf (context : Context) (key : List Char) : List Char :=
  ((context.get? (String.ofList (Text.trimChars key))).getD "").toList

def renderChars (context : Context) (chars : List Char) : List Char :=
  match _h : first? chars with
  | none => chars
  | some (before, key, after) => before ++ valueOf context key ++ renderChars context after
termination_by chars.length
decreasing_by exact length_first? _h

/-- A text with its placeholders filled in. -/
def render (context : Context) (template : String) : String :=
  String.ofList (renderChars context template.toList)

mutual

/-- A value with the placeholders of all its strings filled in; keys stay as they are. -/
def renderValue (context : Context) : Json → Json
  | .string s => .string (render context s)
  | .array items => .array (renderItems context items)
  | .object members => .object (renderMembers context members)
  | value => value

def renderItems (context : Context) : List Json → List Json
  | [] => []
  | value :: rest => renderValue context value :: renderItems context rest

def renderMembers (context : Context) : List (String × Json) → List (String × Json)
  | [] => []
  | (key, value) :: rest => (key, renderValue context value) :: renderMembers context rest

end

end Automation.Placeholder
