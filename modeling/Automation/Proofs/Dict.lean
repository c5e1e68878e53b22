import Automation.Dict
import Mathlib.Data.List.Nodup

/-!
# Entries of a dictionary

What looking up and setting mean for the list of entries, of which no two have the same key.
-/
namespace Automation

variable {κ α : Type} [DecidableEq κ]

theorem setEntry_fresh {key : κ} (value : α) {entries : List (κ × α)}
    (h : key ∉ entries.map Prod.fst) : setEntry key value entries = entries ++ [(key, value)] := by
  induction entries with
  | nil => rfl
  | cons entry rest ih =>
    obtain ⟨hne, hrest⟩ := List.ne_and_not_mem_of_not_mem_cons h
    rw [setEntry, if_neg (Ne.symm hne), ih hrest, List.cons_append]

theorem setEntry_of_find? {key : κ} {value : α} {entries : List (κ × α)}
    (h : (entries.find? fun entry => entry.1 = key).map Prod.snd = some value) :
    setEntry key value entries = entries := by
  induction entries with
  | nil => cases h
  | cons entry rest ih =>
    obtain ⟨k, v⟩ := entry
    rw [List.find?_cons] at h
    by_cases hkey : k = key
    · simp only [hkey, decide_true, Option.map_some, Option.some.injEq] at h
      rw [setEntry, if_pos hkey, hkey, h]
    · simp only [hkey, decide_false] at h
      rw [setEntry, if_neg hkey, ih h]

namespace Dict

omit [DecidableEq κ] in
theorem nodup_entries (d : Dict κ α) : d.entries.Nodup :=
  List.Nodup.of_map Prod.fst d.nodup

theorem get?_eq_some_iff {d : Dict κ α} {key : κ} {value : α} :
    d.get? key = some value ↔ (key, value) ∈ d.entries := by
  constructor
  · intro h
    obtain ⟨entry, hentry, rfl⟩ := Option.map_eq_some_iff.mp h
    obtain rfl : entry.1 = key := by simpa using List.find?_some hentry
    exact List.mem_of_find?_eq_some hentry
  · intro h
    cases hfind : d.entries.find? fun entry => entry.1 = key with
    | none =>
      have hne := List.find?_eq_none.mp hfind _ h
      simp at hne
    | some entry =>
      have hkey : entry.1 = key := by simpa using List.find?_some hfind
      have hmem := List.mem_of_find?_eq_some hfind
      obtain rfl : entry = (key, value) := List.inj_on_of_nodup_map d.nodup hmem h hkey
      rw [get?, hfind]
      rfl

theorem get?_eq_none_iff {d : Dict κ α} {key : κ} :
    d.get? key = none ↔ key ∉ d.entries.map Prod.fst := by
  rw [get?, Option.map_eq_none_iff, List.find?_eq_none, List.mem_map]
  simp only [decide_eq_true_iff]
  constructor
  · rintro h ⟨entry, hentry, hkey⟩
    exact h entry hentry hkey
  · exact fun h entry hentry hkey => h ⟨entry, hentry, hkey⟩

/-- Setting what is there already changes nothing. -/
theorem insert_of_get? {d : Dict κ α} {key : κ} {value : α} (h : d.get? key = some value) :
    d.insert key value = d := by
  obtain ⟨entries, hnodup⟩ := d
  show (⟨setEntry key value entries, _⟩ : Dict κ α) = ⟨entries, hnodup⟩
  congr 1
  exact setEntry_of_find? h

/-- Setting the entries one after another makes the dictionary again. -/
theorem ofList_entries (d : Dict κ α) : ofList d.entries = d := by
  have hfold : ∀ (later : List (κ × α)) (done : Dict κ α),
      ((done.entries ++ later).map Prod.fst).Nodup →
      (later.foldl (fun d entry => d.insert entry.1 entry.2) done).entries =
        done.entries ++ later := by
    intro later
    induction later with
    | nil => exact fun done _ => (List.append_nil done.entries).symm
    | cons entry later ih =>
      intro done h
      have hfresh : entry.1 ∉ done.entries.map Prod.fst := by
        rw [List.map_append, List.map_cons] at h
        exact fun hmem => List.disjoint_of_nodup_append h hmem List.mem_cons_self
      have hentries : (done.insert entry.1 entry.2).entries = done.entries ++ [entry] :=
        setEntry_fresh entry.2 hfresh
      rw [List.foldl_cons, ih _ (by rw [hentries, List.append_assoc]; exact h), hentries,
        List.append_assoc]
      rfl
  have h := hfold d.entries empty d.nodup
  show (⟨(ofList d.entries).entries, (ofList d.entries).nodup⟩ : Dict κ α) = ⟨d.entries, d.nodup⟩
  congr 1

/-- What is found was among the entries that were set. -/
theorem mem_of_get?_ofList {entries : List (κ × α)} {key : κ} {value : α}
    (h : (ofList entries).get? key = some value) : (key, value) ∈ entries := by
  have hfold : ∀ (entries : List (κ × α)) (d : Dict κ α),
      (entries.foldl (fun d entry => d.insert entry.1 entry.2) d).get? key = some value →
        d.get? key = some value ∨ (key, value) ∈ entries := by
    intro entries
    induction entries with
    | nil => exact fun _ h => Or.inl h
    | cons entry entries ih =>
      intro d h
      rcases ih _ h with h | h
      · rw [get?_insert] at h
        split at h
        · next hkey =>
          obtain rfl := Option.some.inj h
          exact Or.inr (hkey ▸ List.mem_cons_self)
        · exact Or.inl h
      · exact Or.inr (List.mem_cons_of_mem _ h)
  exact (hfold entries empty h).resolve_left nofun

end Dict
end Automation
