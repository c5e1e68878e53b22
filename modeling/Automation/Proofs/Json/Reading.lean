import Automation.Proofs.Json.Literal
import Automation.Proofs.Json.Quoted

/-!
# Printed values

The indented layout of a value is read as the document that says the value, but for containers that
are nested too deep: those are well formed and have no value. That the numbers come back is assumed
of the doubles, whose shortest digits need not read back to the same double, and of the integers
that they fit 64 bits. Values are read one character at least a step, so the length of the text is
fuel enough.
-/
namespace Automation.Json

open Document

mutual

/-- The numbers in a value come back from what is printed of them. -/
def Legible : Json → Prop
  | null | bool _ | string _ => True
  | int n => Fits n
  | real d => d.ReadsBack
  | array items => LegibleItems items
  | object members => LegibleMembers members

def LegibleItems : List Json → Prop
  | [] => True
  | value :: rest => value.Legible ∧ LegibleItems rest

def LegibleMembers : List (String × Json) → Prop
  | [] => True
  | (_, value) :: rest => value.Legible ∧ LegibleMembers rest

end

mutual

/-- What is read of a value that is printed at a level. -/
def documentAt (level : Nat) : Json → Document
  | null => .null
  | bool b => .bool b
  | int n => .int n
  | real d => .real d
  | string s => .string s
  | array items =>
    if level + 1 < nestingLimit then .array (documentsAt (level + 1) items) true else .unusable
  | object members =>
    if level + 1 < nestingLimit then .object (membersAt (level + 1) members) true else .unusable

def documentsAt (level : Nat) : List Json → List Document
  | [] => []
  | value :: rest => documentAt level value :: documentsAt level rest

def membersAt (level : Nat) : List (String × Json) → List (String × Document)
  | [] => []
  | (key, value) :: rest => (key, documentAt level value) :: membersAt level rest

end

section Space

theorem skipSpace_cons {c : Char} (h : isSpace c = false) (rest : List Char) :
    skipSpace (c :: rest) = c :: rest :=
  List.dropWhile_cons_of_neg (by rw [h]; decide)

theorem skipSpace_skipSpace (chars : List Char) :
    skipSpace (skipSpace chars) = skipSpace chars := by
  induction chars with
  | nil => rfl
  | cons c rest ih =>
    by_cases h : isSpace c
    · have hskip : skipSpace (c :: rest) = skipSpace rest := List.dropWhile_cons_of_pos h
      rw [hskip, ih]
    · have hskip := skipSpace_cons (Bool.not_eq_true _ ▸ h) rest
      rw [hskip, hskip]

theorem toList_newline (level : Nat) :
    (newline level).toList = '\n' :: List.replicate (2 * level) ' ' := by
  simp only [newline, String.toList_append, String.toList_ofList]
  rfl

theorem skipSpace_newline (level : Nat) (rest : List Char) :
    skipSpace ((newline level).toList ++ rest) = skipSpace rest := by
  have hspace : ∀ c ∈ (newline level).toList, isSpace c := by
    rw [toList_newline]
    refine List.forall_mem_cons.mpr ⟨by decide, fun c hc => ?_⟩
    rw [List.eq_of_mem_replicate hc]
    decide
  exact List.dropWhile_append_of_pos hspace

theorem value_skipSpace (fuel level : Nat) (chars : List Char) :
    value fuel level (skipSpace chars) = value fuel level chars := by
  cases fuel with
  | zero => rw [value, value]
  | succ fuel => rw [value, value, skipSpace_skipSpace]

theorem items_skipSpace (fuel level : Nat) (done : List Document) (chars : List Char) :
    items fuel level done (skipSpace chars) = items fuel level done chars := by
  cases fuel with
  | zero => rw [items, items]
  | succ fuel => rw [items, items, value_skipSpace]

theorem members_skipSpace (fuel level : Nat) (done : List (String × Document))
    (chars : List Char) :
    members fuel level done (skipSpace chars) = members fuel level done chars := by
  cases fuel with
  | zero => rw [members, members]
  | succ fuel => rw [members, members, skipSpace_skipSpace]

end Space

section Number

/-- A literal starts with its sign or a digit. -/
theorem head_of_read? {chars later : List Char} {l : Literal}
    (h : Literal.read? chars = some (l, later)) :
    ∃ c more, chars = c :: more ∧ (c == '-' || c.isDigit) := by
  cases chars with
  | nil => cases h
  | cons c more =>
    refine ⟨c, more, rfl, ?_⟩
    by_contra hc
    simp only [Bool.or_eq_true, beq_iff_eq, not_or, Bool.not_eq_true] at hc
    have hminus : Literal.minus (c :: more) = (false, c :: more) := by
      simp [Literal.minus, hc.1]
    have hbefore : (c :: more).takeWhile Char.isDigit = [] :=
      List.takeWhile_cons_of_neg (by rw [hc.2]; decide)
    rw [Literal.read?, hminus] at h
    simp only [hbefore] at h
    cases h

theorem ne_of_number {c d : Char} (h : c == '-' || c.isDigit)
    (hd : (d == '-' || d.isDigit) = false) : c ≠ d := by
  rintro rfl
  rw [hd] at h
  cases h

theorem isSpace_of_number {c : Char} (h : c == '-' || c.isDigit) : isSpace c = false := by
  simp only [isSpace, Bool.or_eq_false_iff, beq_eq_false_iff_ne]
  exact ⟨⟨⟨ne_of_number h (by decide), ne_of_number h (by decide)⟩, ne_of_number h (by decide)⟩,
    ne_of_number h (by decide)⟩

theorem value_number {c : Char} (h : c == '-' || c.isDigit) (fuel level : Nat)
    (rest : List Char) : value (fuel + 1) level (c :: rest) = literal (c :: rest) := by
  rw [value, skipSpace_cons (isSpace_of_number h)]
  split
  · next he => exact absurd (List.cons.inj he).1 (ne_of_number h (by decide))
  · next he => exact absurd (List.cons.inj he).1 (ne_of_number h (by decide))
  · next he => exact absurd (List.cons.inj he).1 (ne_of_number h (by decide))
  · next he => exact absurd (List.cons.inj he).1 (ne_of_number h (by decide))
  · next he => exact absurd (List.cons.inj he).1 (ne_of_number h (by decide))
  · next he => exact absurd (List.cons.inj he).1 (ne_of_number h (by decide))
  · next he =>
    obtain ⟨rfl, rfl⟩ := List.cons.inj he
    rw [if_pos h]
  · next he => cases he

theorem value_literal {chars rest : List Char} {l : Literal} (hs : Stops rest)
    (h : Literal.read? chars = some (l, [])) (fuel level : Nat) :
    value (fuel + 1) level (chars ++ rest) =
      match l.value? with
      | some (.int n) => (.int n, some rest)
      | some (.real d) => (.real d, some rest)
      | _ => (.unusable, some rest) := by
  obtain ⟨c, more, rfl, hc⟩ := head_of_read? h
  rw [List.cons_append, value_number hc, literal, ← List.cons_append, Literal.read?_append hs h]
  rfl

end Number

section Layout

theorem toList_null (k : Nat) : (prettyAt k .null).toList = ['n', 'u', 'l', 'l'] := by
  have hpretty : prettyAt k .null = "null" := rfl
  simp [hpretty]

theorem toList_true (k : Nat) : (prettyAt k (.bool true)).toList = ['t', 'r', 'u', 'e'] := by
  have hpretty : prettyAt k (.bool true) = "true" := rfl
  simp [hpretty]

theorem toList_false (k : Nat) :
    (prettyAt k (.bool false)).toList = ['f', 'a', 'l', 's', 'e'] := by
  have hpretty : prettyAt k (.bool false) = "false" := rfl
  simp [hpretty]

theorem toList_array_nil (k : Nat) : (prettyAt k (.array [])).toList = ['[', ']'] := by
  have hpretty : prettyAt k (.array []) = "[]" := rfl
  simp [hpretty]

theorem toList_object_nil (k : Nat) : (prettyAt k (.object [])).toList = ['\x7b', '\x7d'] := by
  have hpretty : prettyAt k (.object []) = "\x7b\x7d" := rfl
  simp [hpretty]

theorem toList_array (k : Nat) (v : Json) (vs : List Json) :
    (prettyAt k (.array (v :: vs))).toList =
      '[' :: ((prettyItems (k + 1) (v :: vs)).toList ++ ((newline k).toList ++ [']'])) := by
  have hpretty : prettyAt k (.array (v :: vs)) =
      "[" ++ prettyItems (k + 1) (v :: vs) ++ newline k ++ "]" := rfl
  simp [hpretty, String.toList_append]

theorem toList_object (k : Nat) (m : String × Json) (ms : List (String × Json)) :
    (prettyAt k (.object (m :: ms))).toList =
      '\x7b' :: ((prettyMembers (k + 1) (m :: ms)).toList ++ ((newline k).toList ++ ['\x7d'])) := by
  have hpretty : prettyAt k (.object (m :: ms)) =
      "\x7b" ++ prettyMembers (k + 1) (m :: ms) ++ newline k ++ "\x7d" := rfl
  simp [hpretty, String.toList_append]

theorem toList_items_one (k : Nat) (v : Json) :
    (prettyItems k [v]).toList = (newline k).toList ++ (prettyAt k v).toList := by
  have hpretty : prettyItems k [v] = newline k ++ prettyAt k v := rfl
  rw [hpretty, String.toList_append]

theorem toList_items_cons (k : Nat) (v w : Json) (vs : List Json) :
    (prettyItems k (v :: w :: vs)).toList =
      (newline k).toList ++ ((prettyAt k v).toList ++ ',' :: (prettyItems k (w :: vs)).toList) := by
  have hpretty : prettyItems k (v :: w :: vs) =
      newline k ++ prettyAt k v ++ "," ++ prettyItems k (w :: vs) := rfl
  simp [hpretty, String.toList_append]

theorem toList_members_one (k : Nat) (key : String) (v : Json) :
    (prettyMembers k [(key, v)]).toList =
      (newline k).toList ++ ((quoted key).toList ++ ':' :: ' ' :: (prettyAt k v).toList) := by
  have hpretty : prettyMembers k [(key, v)] =
      newline k ++ quoted key ++ ": " ++ prettyAt k v := rfl
  simp [hpretty, String.toList_append]

theorem toList_members_cons (k : Nat) (key : String) (v : Json) (m : String × Json)
    (ms : List (String × Json)) :
    (prettyMembers k ((key, v) :: m :: ms)).toList =
      (newline k).toList ++ ((quoted key).toList ++ ':' :: ' ' ::
        ((prettyAt k v).toList ++ ',' :: (prettyMembers k (m :: ms)).toList)) := by
  have hpretty : prettyMembers k ((key, v) :: m :: ms) = newline k ++ quoted key ++ ": " ++
      prettyAt k v ++ "," ++ prettyMembers k (m :: ms) := rfl
  simp [hpretty, String.toList_append]

theorem items_length_pos {vs : List Json} (hne : vs ≠ []) (k : Nat) :
    0 < (prettyItems k vs).toList.length := by
  obtain ⟨v, vs, rfl⟩ := List.exists_cons_of_ne_nil hne
  cases vs with
  | nil =>
    rw [toList_items_one, toList_newline]
    exact Nat.succ_pos _
  | cons w vs =>
    rw [toList_items_cons, toList_newline]
    exact Nat.succ_pos _

theorem members_length_pos {ms : List (String × Json)} (hne : ms ≠ []) (k : Nat) :
    0 < (prettyMembers k ms).toList.length := by
  obtain ⟨⟨key, v⟩, ms, rfl⟩ := List.exists_cons_of_ne_nil hne
  cases ms with
  | nil =>
    rw [toList_members_one, toList_newline]
    exact Nat.succ_pos _
  | cons m ms =>
    rw [toList_members_cons, toList_newline]
    exact Nat.succ_pos _

end Layout

/-- What is printed of a value does not start with a blank or close a container. -/
theorem head_prettyAt {v : Json} (h : v.Legible) (k : Nat) :
    ∃ c more, (prettyAt k v).toList = c :: more ∧ isSpace c = false ∧ c ≠ ']' := by
  have hnumber : ∀ {chars later : List Char} {l : Literal},
      Literal.read? chars = some (l, later) →
      ∃ c more, chars = c :: more ∧ isSpace c = false ∧ c ≠ ']' := by
    intro chars later l hl
    obtain ⟨c, more, he, hc⟩ := head_of_read? hl
    exact ⟨c, more, he, isSpace_of_number hc, ne_of_number hc (by decide)⟩
  cases v with
  | null => exact ⟨'n', _, toList_null k, by decide, by decide⟩
  | bool b =>
    cases b with
    | true => exact ⟨'t', _, toList_true k, by decide, by decide⟩
    | false => exact ⟨'f', _, toList_false k, by decide, by decide⟩
  | int n =>
    obtain ⟨l, hl, -⟩ := read?_toString h
    exact hnumber hl
  | real d =>
    obtain ⟨l, hl, -⟩ := h
    exact hnumber hl
  | string s => exact ⟨'"', _, toList_quoted s, by decide, by decide⟩
  | array vs =>
    cases vs with
    | nil => exact ⟨'[', _, toList_array_nil k, by decide, by decide⟩
    | cons v vs => exact ⟨'[', _, toList_array k v vs, by decide, by decide⟩
  | object ms =>
    cases ms with
    | nil => exact ⟨'\x7b', _, toList_object_nil k, by decide, by decide⟩
    | cons m ms => exact ⟨'\x7b', _, toList_object k m ms, by decide, by decide⟩

section Container

theorem head_items {vs : List Json} (hne : vs ≠ []) (h : LegibleItems vs) (k : Nat)
    (rest : List Char) :
    ∃ c more, skipSpace ((prettyItems k vs).toList ++ rest) = c :: more ∧ c ≠ ']' := by
  obtain ⟨v, vs, rfl⟩ := List.exists_cons_of_ne_nil hne
  obtain ⟨c, more, he, hspace, hc⟩ := head_prettyAt h.1 k
  cases vs with
  | nil =>
    rw [toList_items_one, List.append_assoc, skipSpace_newline, he, List.cons_append,
      skipSpace_cons hspace]
    exact ⟨c, _, rfl, hc⟩
  | cons w vs =>
    rw [toList_items_cons, List.append_assoc, skipSpace_newline, he, List.cons_append,
      List.cons_append, skipSpace_cons hspace]
    exact ⟨c, _, rfl, hc⟩

theorem head_members {ms : List (String × Json)} (hne : ms ≠ []) (k : Nat) (rest : List Char) :
    ∃ more, skipSpace ((prettyMembers k ms).toList ++ rest) = '"' :: more := by
  obtain ⟨⟨key, v⟩, ms, rfl⟩ := List.exists_cons_of_ne_nil hne
  cases ms with
  | nil =>
    rw [toList_members_one, List.append_assoc, skipSpace_newline, toList_quoted,
      List.cons_append, List.cons_append, skipSpace_cons (by decide)]
    exact ⟨_, rfl⟩
  | cons m ms =>
    rw [toList_members_cons, List.append_assoc, skipSpace_newline, toList_quoted,
      List.cons_append, List.cons_append, skipSpace_cons (by decide)]
    exact ⟨_, rfl⟩

theorem value_array {text : List Char} (h : ∃ c more, skipSpace text = c :: more ∧ c ≠ ']')
    (fuel level : Nat) : value (fuel + 1) level ('[' :: text) = items fuel (level + 1) [] text := by
  obtain ⟨c, more, he, hc⟩ := h
  rw [value, skipSpace_cons (by decide), ← items_skipSpace]
  simp only [he]
  split
  · next hclose => exact absurd (List.cons.inj hclose).1 hc
  · rfl

theorem value_object {text : List Char} (h : ∃ more, skipSpace text = '"' :: more)
    (fuel level : Nat) :
    value (fuel + 1) level ('\x7b' :: text) = members fuel (level + 1) [] text := by
  obtain ⟨more, he⟩ := h
  rw [value, skipSpace_cons (by decide), ← members_skipSpace]
  simp only [he]
  rfl

theorem items_comma {fuel level : Nat} {text rest : List Char} {item : Document}
    (h : value fuel level text = (item, some (',' :: rest))) (done : List Document) :
    items (fuel + 1) level done text = items fuel level (item :: done) rest := by
  rw [items, h]
  rfl

theorem items_close {fuel level : Nat} {text rest tail : List Char} {item : Document}
    (h : value fuel level text = (item, some tail)) (ht : skipSpace tail = ']' :: rest)
    (done : List Document) :
    items (fuel + 1) level done text =
      atLevel level (.array (item :: done).reverse true) rest := by
  rw [items, h]
  simp only [ht]

theorem members_comma {fuel level : Nat} {text rest : List Char} {item : Document} (key : String)
    (h : value fuel level (' ' :: text) = (item, some (',' :: rest)))
    (done : List (String × Document)) :
    members (fuel + 1) level done ((quoted key).toList ++ ':' :: ' ' :: text) =
      members fuel level ((key, item) :: done) rest := by
  rw [toList_quoted, List.cons_append, List.append_assoc, members, skipSpace_cons (by decide)]
  simp only [List.singleton_append, readString_quoted,
    skipSpace_cons (by decide : isSpace ':' = false), h,
    skipSpace_cons (by decide : isSpace ',' = false)]

theorem members_close {fuel level : Nat} {text rest tail : List Char} {item : Document}
    (key : String) (h : value fuel level (' ' :: text) = (item, some tail))
    (ht : skipSpace tail = '\x7d' :: rest) (done : List (String × Document)) :
    members (fuel + 1) level done ((quoted key).toList ++ ':' :: ' ' :: text) =
      atLevel level (.object ((key, item) :: done).reverse true) rest := by
  rw [toList_quoted, List.cons_append, List.append_assoc, members, skipSpace_cons (by decide)]
  simp only [List.singleton_append, readString_quoted,
    skipSpace_cons (by decide : isSpace ':' = false), h, ht]

end Container

/-- What is printed is read as the document that says it, as long as the fuel lasts. -/
structure Readable (fuel : Nat) : Prop where
  value : ∀ (v : Json) (level k : Nat) (rest : List Char), v.Legible → Stops rest →
    (prettyAt k v).toList.length ≤ fuel →
    Document.value fuel level ((prettyAt k v).toList ++ rest) = (v.documentAt level, some rest)
  items : ∀ (vs : List Json) (level k : Nat) (done : List Document) (rest : List Char),
    vs ≠ [] → LegibleItems vs → (prettyItems (k + 1) vs).toList.length ≤ fuel →
    Document.items fuel level done
        ((prettyItems (k + 1) vs).toList ++ ((newline k).toList ++ ']' :: rest)) =
      atLevel level (.array (done.reverse ++ documentsAt level vs) true) rest
  members : ∀ (ms : List (String × Json)) (level k : Nat) (done : List (String × Document))
      (rest : List Char),
    ms ≠ [] → LegibleMembers ms → (prettyMembers (k + 1) ms).toList.length ≤ fuel →
    Document.members fuel level done
        ((prettyMembers (k + 1) ms).toList ++ ((newline k).toList ++ '\x7d' :: rest)) =
      atLevel level (.object (done.reverse ++ membersAt level ms) true) rest

namespace Readable

variable {fuel : Nat}

theorem value_succ (h : Readable fuel) (v : Json) (level k : Nat) (rest : List Char)
    (hl : v.Legible) (hs : Stops rest) (hf : (prettyAt k v).toList.length ≤ fuel + 1) :
    Document.value (fuel + 1) level ((prettyAt k v).toList ++ rest) =
      (v.documentAt level, some rest) := by
  cases v with
  | null =>
    rw [toList_null]
    rfl
  | bool b =>
    cases b with
    | true =>
      rw [toList_true]
      rfl
    | false =>
      rw [toList_false]
      rfl
  | int n =>
    obtain ⟨l, hread, hvalue⟩ := read?_toString hl
    have htext : prettyAt k (.int n) = toString n := rfl
    rw [htext, value_literal hs hread, hvalue]
    rfl
  | real d =>
    obtain ⟨l, hread, hvalue⟩ := hl
    have htext : prettyAt k (.real d) = doubleText d := rfl
    rw [htext, value_literal hs hread, hvalue]
    rfl
  | string s =>
    have htext : prettyAt k (.string s) = quoted s := rfl
    rw [htext, toList_quoted, List.cons_append, List.append_assoc, List.singleton_append,
      Document.value, skipSpace_cons (by decide)]
    simp only [readString_quoted]
    rfl
  | array vs =>
    cases vs with
    | nil =>
      rw [toList_array_nil]
      rfl
    | cons v vs =>
      rw [toList_array, List.length_cons, List.length_append] at hf
      rw [toList_array, List.cons_append, List.append_assoc, List.append_assoc,
        List.singleton_append, value_array (head_items (List.cons_ne_nil v vs) hl (k + 1) _),
        h.items (v :: vs) (level + 1) k [] rest (List.cons_ne_nil v vs) hl (by omega)]
      rfl
  | object ms =>
    cases ms with
    | nil =>
      rw [toList_object_nil]
      rfl
    | cons m ms =>
      rw [toList_object, List.length_cons, List.length_append] at hf
      rw [toList_object, List.cons_append, List.append_assoc, List.append_assoc,
        List.singleton_append, value_object (head_members (List.cons_ne_nil m ms) (k + 1) _),
        h.members (m :: ms) (level + 1) k [] rest (List.cons_ne_nil m ms) hl (by omega)]
      rfl

theorem items_succ (h : Readable fuel) (vs : List Json) (level k : Nat) (done : List Document)
    (rest : List Char) (hne : vs ≠ []) (hl : LegibleItems vs)
    (hf : (prettyItems (k + 1) vs).toList.length ≤ fuel + 1) :
    Document.items (fuel + 1) level done
        ((prettyItems (k + 1) vs).toList ++ ((newline k).toList ++ ']' :: rest)) =
      atLevel level (.array (done.reverse ++ documentsAt level vs) true) rest := by
  obtain ⟨v, vs, rfl⟩ := List.exists_cons_of_ne_nil hne
  cases vs with
  | nil =>
    rw [toList_items_one, toList_newline, List.length_append, List.length_cons] at hf
    have hvalue := h.value v level (k + 1) ((newline k).toList ++ ']' :: rest) hl.1
      (by rw [toList_newline]; exact stops_cons (by decide)) (by omega)
    have hclose : skipSpace ((newline k).toList ++ ']' :: rest) = ']' :: rest := by
      rw [skipSpace_newline, skipSpace_cons (by decide)]
    rw [toList_items_one, List.append_assoc, ← items_skipSpace, skipSpace_newline,
      items_skipSpace, items_close hvalue hclose, List.reverse_cons]
    rfl
  | cons w vs =>
    rw [toList_items_cons, toList_newline, List.length_append, List.length_append,
      List.length_cons, List.length_cons] at hf
    have hvalue := h.value v level (k + 1)
      (',' :: ((prettyItems (k + 1) (w :: vs)).toList ++ ((newline k).toList ++ ']' :: rest)))
      hl.1 (stops_cons (by decide)) (by omega)
    rw [toList_items_cons, List.append_assoc, ← items_skipSpace, skipSpace_newline,
      items_skipSpace, List.append_assoc, List.cons_append, items_comma hvalue,
      h.items (w :: vs) level k _ rest (List.cons_ne_nil w vs) hl.2 (by omega),
      List.reverse_cons, List.append_assoc]
    rfl

theorem members_succ (h : Readable fuel) (ms : List (String × Json)) (level k : Nat)
    (done : List (String × Document)) (rest : List Char) (hne : ms ≠ []) (hl : LegibleMembers ms)
    (hf : (prettyMembers (k + 1) ms).toList.length ≤ fuel + 1) :
    Document.members (fuel + 1) level done
        ((prettyMembers (k + 1) ms).toList ++ ((newline k).toList ++ '\x7d' :: rest)) =
      atLevel level (.object (done.reverse ++ membersAt level ms) true) rest := by
  obtain ⟨⟨key, v⟩, ms, rfl⟩ := List.exists_cons_of_ne_nil hne
  have hspace : ∀ chars, Document.value fuel level (' ' :: chars) =
      Document.value fuel level chars := by
    intro chars
    rw [← value_skipSpace, ← value_skipSpace fuel level chars]
    rfl
  cases ms with
  | nil =>
    rw [toList_members_one, toList_newline, List.length_append, List.length_append,
      List.length_cons, List.length_cons, List.length_cons] at hf
    have hvalue := h.value v level (k + 1) ((newline k).toList ++ '\x7d' :: rest) hl.1
      (by rw [toList_newline]; exact stops_cons (by decide)) (by omega)
    have hclose : skipSpace ((newline k).toList ++ '\x7d' :: rest) = '\x7d' :: rest := by
      rw [skipSpace_newline, skipSpace_cons (by decide)]
    rw [toList_members_one, List.append_assoc, ← members_skipSpace, skipSpace_newline,
      members_skipSpace, List.append_assoc, List.cons_append, List.cons_append,
      members_close key ((hspace _).trans hvalue) hclose, List.reverse_cons]
    rfl
  | cons m ms =>
    rw [toList_members_cons, toList_newline, List.length_append, List.length_append,
      List.length_cons, List.length_cons, List.length_cons, List.length_append,
      List.length_cons] at hf
    have hvalue := h.value v level (k + 1)
      (',' :: ((prettyMembers (k + 1) (m :: ms)).toList ++
        ((newline k).toList ++ '\x7d' :: rest)))
      hl.1 (stops_cons (by decide)) (by omega)
    rw [toList_members_cons, List.append_assoc, ← members_skipSpace, skipSpace_newline,
      members_skipSpace, List.append_assoc, List.cons_append, List.cons_append,
      List.append_assoc, List.cons_append, members_comma key ((hspace _).trans hvalue),
      h.members (m :: ms) level k _ rest (List.cons_ne_nil m ms) hl.2 (by omega),
      List.reverse_cons, List.append_assoc]
    rfl

end Readable

/-- Every call reads a character, so fuel as long as the text is enough. -/
theorem readable (fuel : Nat) : Readable fuel := by
  induction fuel with
  | zero =>
    refine ⟨fun v level k rest hl _ hf => ?_, fun vs level k done rest hne hl hf => ?_,
      fun ms level k done rest hne hl hf => ?_⟩
    · obtain ⟨c, more, he, -⟩ := head_prettyAt hl k
      rw [he] at hf
      exact absurd hf (Nat.not_succ_le_zero _)
    · exact absurd hf (Nat.not_le_of_gt (items_length_pos hne (k + 1)))
    · exact absurd hf (Nat.not_le_of_gt (members_length_pos hne (k + 1)))
  | succ fuel ih => exact ⟨ih.value_succ, ih.items_succ, ih.members_succ⟩

/-- The indented layout of a value is read as the document that says the value. -/
theorem ofText_pretty {v : Json} (h : v.Legible) : Document.ofText v.pretty = v.documentAt 0 := by
  have hread : Document.value (2 * v.pretty.length + 2) 0 v.pretty.toList =
      (v.documentAt 0, some []) := by
    have hfuel : v.pretty.toList.length ≤ 2 * v.pretty.length + 2 := by
      rw [String.length_toList]
      omega
    have h0 := (readable (2 * v.pretty.length + 2)).value v 0 0 [] h (fun _ hc => nomatch hc) hfuel
    rwa [List.append_nil] at h0
  rw [Document.ofText, hread]
  rfl

theorem legibleItems_of_forall {vs : List Json} (h : ∀ v ∈ vs, v.Legible) :
    LegibleItems vs := by
  induction vs with
  | nil => trivial
  | cons v vs ih =>
    exact ⟨h v List.mem_cons_self, ih fun w hw => h w (List.mem_cons_of_mem _ hw)⟩

theorem legibleMembers_of_forall {ms : List (String × Json)}
    (h : ∀ m ∈ ms, m.2.Legible) : LegibleMembers ms := by
  induction ms with
  | nil => trivial
  | cons m ms ih =>
    exact ⟨h m List.mem_cons_self, ih fun w hw => h w (List.mem_cons_of_mem _ hw)⟩

end Automation.Json
