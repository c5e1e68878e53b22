import Automation.Proofs.Json.Reading

/-!
# Nesting of values

A value is nested as deep as its innermost container. Up to the limit it is read as the document
that says it, and as a free-form value that document is the value with sorted members.
-/
namespace Automation.Json

open Document

mutual

/-- How many containers stand around the innermost place of a value. -/
def depth : Json → Nat
  | null | bool _ | int _ | real _ | string _ => 0
  | array items => depthItems items + 1
  | object members => depthMembers members + 1

def depthItems : List Json → Nat
  | [] => 0
  | value :: rest => max value.depth (depthItems rest)

def depthMembers : List (String × Json) → Nat
  | [] => 0
  | (_, value) :: rest => max value.depth (depthMembers rest)

end

theorem depthItems_le_iff {n : Nat} {vs : List Json} :
    depthItems vs ≤ n ↔ ∀ v ∈ vs, v.depth ≤ n := by
  induction vs with
  | nil => simp [depthItems]
  | cons v vs ih => rw [depthItems, max_le_iff, ih, List.forall_mem_cons]

theorem depthMembers_le_iff {n : Nat} {ms : List (String × Json)} :
    depthMembers ms ≤ n ↔ ∀ m ∈ ms, m.2.depth ≤ n := by
  induction ms with
  | nil => simp [depthMembers]
  | cons m ms ih => rw [depthMembers, max_le_iff, ih, List.forall_mem_cons]

theorem depth_array_le {α : Type} {encode : α → Json} {as : List α} {n : Nat}
    (h : ∀ a ∈ as, (encode a).depth ≤ n) : (array (as.map encode)).depth ≤ n + 1 := by
  rw [depth]
  exact Nat.succ_le_succ (depthItems_le_iff.mpr (List.forall_mem_map.mpr h))

theorem depth_record_le {members : List (String × Option Json)} {n : Nat}
    (h : ∀ m ∈ members, ∀ v ∈ m.2, v.depth ≤ n) : (record members).depth ≤ n + 1 := by
  rw [record, depth]
  refine Nat.succ_le_succ (depthMembers_le_iff.mpr fun m hm => ?_)
  obtain ⟨field, hfield, he⟩ := List.mem_filterMap.mp hm
  obtain ⟨v, hv, rfl⟩ := Option.map_eq_some_iff.mp he
  exact h field hfield v hv

mutual

/-- A value that is not nested too deep is read as the document that says it. -/
theorem documentAt_of_depth {level : Nat} :
    ∀ v : Json, v.depth + level < nestingLimit → v.documentAt level = v.toDocument
  | null, _ => rfl
  | bool _, _ => rfl
  | int _, _ => rfl
  | real _, _ => rfl
  | string _, _ => rfl
  | array vs, h => by
    rw [depth] at h
    rw [documentAt, toDocument, if_pos (by omega), documentsAt_of_depth vs (by omega)]
  | object ms, h => by
    rw [depth] at h
    rw [documentAt, toDocument, if_pos (by omega), membersAt_of_depth ms (by omega)]

theorem documentsAt_of_depth {level : Nat} :
    ∀ vs : List Json, depthItems vs + level < nestingLimit →
      documentsAt level vs = itemsToDocument vs
  | [], _ => rfl
  | v :: vs, h => by
    rw [depthItems] at h
    rw [documentsAt, itemsToDocument, documentAt_of_depth v (by omega),
      documentsAt_of_depth vs (by omega)]

theorem membersAt_of_depth {level : Nat} :
    ∀ ms : List (String × Json), depthMembers ms + level < nestingLimit →
      membersAt level ms = membersToDocument ms
  | [], _ => rfl
  | (key, v) :: ms, h => by
    rw [depthMembers] at h
    rw [membersAt, membersToDocument, documentAt_of_depth v (by omega),
      membersAt_of_depth ms (by omega)]

end

theorem documentsAt_eq_map (level : Nat) (vs : List Json) :
    documentsAt level vs = vs.map (documentAt level) := by
  induction vs with
  | nil => rfl
  | cons v vs ih => rw [documentsAt, ih, List.map_cons]

theorem membersAt_eq_map (level : Nat) (ms : List (String × Json)) :
    membersAt level ms = ms.map fun m => (m.1, m.2.documentAt level) := by
  induction ms with
  | nil => rfl
  | cons m ms ih => rw [membersAt, ih, List.map_cons]

mutual

/-- What is read of a value that is nested too deep has no value. -/
theorem depth_of_toJson? {level : Nat} (hlevel : level < nestingLimit) :
    ∀ v : Json, (v.documentAt level).toJson?.isSome → v.depth + level < nestingLimit
  | null, _ | bool _, _ | int _, _ | real _, _ | string _, _ => by
    rw [depth]
    omega
  | array vs, h => by
    rw [documentAt] at h
    split at h
    · next hnext =>
      have hitems := depthItems_of_toJson? hnext vs (by simpa [Document.toJson?] using h)
      rw [depth]
      omega
    · cases h
  | object ms, h => by
    rw [documentAt] at h
    split at h
    · next hnext =>
      have hmembers := depthMembers_of_toJson? hnext ms (by simpa [Document.toJson?] using h)
      rw [depth]
      omega
    · cases h

theorem depthItems_of_toJson? {level : Nat} (hlevel : level < nestingLimit) :
    ∀ vs : List Json, (Document.itemsToJson? (documentsAt level vs)).isSome →
      depthItems vs + level < nestingLimit
  | [], _ => by
    rw [depthItems]
    omega
  | v :: vs, h => by
    rw [documentsAt, Document.itemsToJson?] at h
    split at h
    · next hv hvs =>
      have hfirst := depth_of_toJson? hlevel v (by rw [hv]; rfl)
      have hrest := depthItems_of_toJson? hlevel vs (by rw [hvs]; rfl)
      rw [depthItems]
      omega
    · cases h

theorem depthMembers_of_toJson? {level : Nat} (hlevel : level < nestingLimit) :
    ∀ ms : List (String × Json), (Document.membersToJson? (membersAt level ms)).isSome →
      depthMembers ms + level < nestingLimit
  | [], _ => by
    rw [depthMembers]
    omega
  | (key, v) :: ms, h => by
    rw [membersAt, Document.membersToJson?] at h
    split at h
    · next hv hms =>
      have hfirst := depth_of_toJson? hlevel v (by rw [hv]; rfl)
      have hrest := depthMembers_of_toJson? hlevel ms (by rw [hms]; rfl)
      rw [depthMembers]
      omega
    · cases h

end

mutual

/-- What a document says as a free-form value has sorted members. -/
theorem toJson?_toDocument : ∀ v : Json, v.toDocument.toJson? = some v.sorted
  | null => rfl
  | bool _ => rfl
  | int _ => rfl
  | real _ => rfl
  | string _ => rfl
  | array vs => by
    rw [toDocument, Document.toJson?, itemsToJson?_toDocument vs, sorted]
    rfl
  | object ms => by
    rw [toDocument, Document.toJson?, membersToJson?_toDocument ms, sorted]
    rfl

theorem itemsToJson?_toDocument :
    ∀ vs : List Json, Document.itemsToJson? (itemsToDocument vs) = some (sortedItems vs)
  | [] => rfl
  | v :: vs => by
    rw [itemsToDocument, Document.itemsToJson?, toJson?_toDocument v, itemsToJson?_toDocument vs,
      sortedItems]

theorem membersToJson?_toDocument :
    ∀ ms : List (String × Json),
      Document.membersToJson? (membersToDocument ms) = some (sortedMembers ms)
  | [] => rfl
  | (key, v) :: ms => by
    rw [membersToDocument, Document.membersToJson?, toJson?_toDocument v,
      membersToJson?_toDocument ms, sortedMembers]

end

theorem membersToDocument_eq_map (ms : List (String × Json)) :
    membersToDocument ms = ms.map fun m => (m.1, m.2.toDocument) := by
  induction ms with
  | nil => rfl
  | cons m ms ih => rw [membersToDocument, ih, List.map_cons]

/-- A printed value that is not nested too deep says the value. -/
theorem ofText_pretty_of_depth {v : Json} (h : v.Legible) (hd : v.depth < nestingLimit) :
    Document.ofText v.pretty = v.toDocument := by
  rw [ofText_pretty h, documentAt_of_depth v hd]

end Automation.Json
