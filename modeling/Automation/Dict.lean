/-!
# Dictionaries

A dictionary lists its entries in the order in which their keys first came in, and no key twice.
Setting a present key keeps its place, so the order of a dictionary never depends on the values put
into it. `get?` is the view in which the operations are specified.
-/
namespace Automation

/-- The entries with the value under `key` replaced, or added at the end. -/
def setEntry [DecidableEq κ] (key : κ) (value : α) : List (κ × α) → List (κ × α)
  | [] => [(key, value)]
  | (k, v) :: rest => if k = key then (key, value) :: rest else (k, v) :: setEntry key value rest

theorem keys_setEntry [DecidableEq κ] (key : κ) (value : α) (entries : List (κ × α)) :
    (setEntry key value entries).map Prod.fst =
      if key ∈ entries.map Prod.fst then entries.map Prod.fst
      else entries.map Prod.fst ++ [key] := by
  induction entries with
  | nil => simp [setEntry]
  | cons entry rest ih =>
    obtain ⟨k, v⟩ := entry
    by_cases h : k = key
    · simp [setEntry, h]
    · by_cases hm : key ∈ rest.map Prod.fst <;> simp [setEntry, h, Ne.symm h, hm, ih]

theorem nodup_setEntry [DecidableEq κ] (key : κ) (value : α) {entries : List (κ × α)}
    (h : (entries.map Prod.fst).Nodup) : ((setEntry key value entries).map Prod.fst).Nodup := by
  rw [keys_setEntry]
  split
  · exact h
  · next hm => exact List.nodup_append.2 ⟨h, by simp, by simp at hm ⊢; grind⟩

structure Dict (κ α : Type) where
  entries : List (κ × α)
  nodup : (entries.map Prod.fst).Nodup

namespace Dict

variable {κ α β : Type}

def empty : Dict κ α := ⟨[], List.nodup_nil⟩

instance : Inhabited (Dict κ α) := ⟨empty⟩

def keys (d : Dict κ α) : List κ := d.entries.map Prod.fst

def values (d : Dict κ α) : List α := d.entries.map Prod.snd

def size (d : Dict κ α) : Nat := d.entries.length

variable [DecidableEq κ]

def get? (d : Dict κ α) (key : κ) : Option α :=
  (d.entries.find? fun entry => entry.1 = key).map Prod.snd

def contains (d : Dict κ α) (key : κ) : Bool := (d.get? key).isSome

def insert (d : Dict κ α) (key : κ) (value : α) : Dict κ α :=
  ⟨setEntry key value d.entries, nodup_setEntry key value d.nodup⟩

def erase (d : Dict κ α) (key : κ) : Dict κ α :=
  ⟨d.entries.filter fun entry => entry.1 ≠ key, by
    have h : ((d.entries.filter fun entry => entry.1 ≠ key).map Prod.fst).Sublist
        (d.entries.map Prod.fst) := (List.filter_sublist).map _
    exact h.nodup d.nodup⟩

/-- The last of several entries with one key wins. -/
def ofList (entries : List (κ × α)) : Dict κ α :=
  entries.foldl (fun d entry => d.insert entry.1 entry.2) empty

@[simp] theorem get?_empty (key : κ) : (empty : Dict κ α).get? key = none := rfl

theorem get?_insert (d : Dict κ α) (key other : κ) (value : α) :
    (d.insert key value).get? other = if key = other then some value else d.get? other := by
  obtain ⟨entries, h⟩ := d
  simp only [get?, insert]
  clear h
  induction entries with
  | nil => by_cases h : key = other <;> simp [setEntry, h]
  | cons entry rest ih =>
    obtain ⟨k, v⟩ := entry
    by_cases hk : k = key
    · by_cases ho : key = other <;> simp [setEntry, hk, ho]
    · by_cases ho : k = other
      · subst ho
        simp [setEntry, hk, Ne.symm hk]
      · simpa [setEntry, hk, ho] using ih

theorem get?_erase (d : Dict κ α) (key other : κ) :
    (d.erase key).get? other = if key = other then none else d.get? other := by
  obtain ⟨entries, h⟩ := d
  simp only [get?, erase]
  clear h
  induction entries with
  | nil => simp
  | cons entry rest ih =>
    obtain ⟨k, v⟩ := entry
    by_cases hk : k = key <;> by_cases ho : k = other <;> by_cases hko : key = other <;>
      simp_all

end Dict
end Automation
