import Automation.Proofs.Dict
import Automation.Table

/-!
# Rows of a table

What the changes of a table do to its rows. The rows change whether or not they can be saved, and
they are saved if the storage works.
-/
namespace Automation

/-- A file can be written in the storage. -/
structure Storage.Accepts (s : Storage) (name : String) : Prop where
  isWritable : s.isWritable = true
  file : s.isFolder name = false
  draft : s.isFolder (draftName name) = false

theorem Storage.Accepts.write {s : Storage} {name : String} (h : s.Accepts name) (text : String) :
    s.write name text = .ok { s with files := s.files.insert name text } := by
  rw [Storage.write, h.isWritable, h.file, h.draft]
  rfl

theorem Storage.write_of_not_accepts {s : Storage} {name : String} (h : ¬ s.Accepts name)
    (text : String) : ∃ cause, s.write name text = .error cause := by
  rw [Storage.write]
  split
  · exact ⟨.missing, rfl⟩
  · next hwritable =>
    split
    · exact ⟨.isFolder, rfl⟩
    · next hfolder =>
      simp only [Bool.not_eq_true, Bool.not_eq_false', Bool.or_eq_false_iff] at hwritable hfolder
      exact absurd ⟨hwritable, hfolder.2, hfolder.1⟩ h

/-- A new file makes no folder of a name that is not shorter than its own. -/
theorem Storage.isFolder_insert {s : Storage} {name other : String} (text : String)
    (hlength : name.toList.length ≤ other.toList.length) (h : s.isFolder other = false) :
    Storage.isFolder { s with files := s.files.insert name text } other = false := by
  rw [Storage.isFolder, List.any_eq_false] at h ⊢
  intro file hfile
  have hkeys : file ∈ (setEntry name text s.files.entries).map Prod.fst := hfile
  rw [keys_setEntry] at hkeys
  split at hkeys
  · exact h file hkeys
  · rcases List.mem_append.mp hkeys with hkeys | hkeys
    · exact h file hkeys
    · -- a name that goes on is no beginning of a shorter one
      obtain rfl := List.mem_singleton.mp hkeys
      intro hprefix
      have hle := (List.isPrefixOf_iff_prefix.mp hprefix).length_le
      have hslash : "/".toList.length = 1 := rfl
      rw [String.toList_append, List.length_append] at hle
      omega

theorem Storage.Accepts.insert {s : Storage} {name : String} (h : s.Accepts name) (text : String) :
    Storage.Accepts { s with files := s.files.insert name text } name := by
  refine ⟨h.isWritable, isFolder_insert text (Nat.le_refl _) h.file,
    isFolder_insert text ?_ h.draft⟩
  rw [draftName, String.toList_append, List.length_append]
  exact Nat.le_add_right _ _

theorem Storage.eq_of_write {s after : Storage} {name text : String}
    (h : s.write name text = .ok after) :
    s.isFolder name = false ∧ after = { s with files := s.files.insert name text } := by
  rw [Storage.write] at h
  split at h
  · cases h
  split at h
  · cases h
  next hfolder =>
  rw [Bool.not_eq_true, Bool.or_eq_false_iff] at hfolder
  exact ⟨hfolder.2, (Except.ok.inj h).symm⟩

theorem Storage.read_of_write {s after : Storage} {name text : String}
    (h : s.write name text = .ok after) : after.read name = .ok (some text) := by
  obtain ⟨hnone, rfl⟩ := eq_of_write h
  rw [Storage.read, isFolder_insert text (Nat.le_refl _) hnone, s.files.get?_insert, if_pos rfl]
  rfl

namespace Table

variable {α β : Type}

theorem rows_save (format : RowFormat α) (result : β) (table : Table α)
    (storage : Storage) : (Table.save format result (table, storage)).2.1 = table := by
  simp only [Table.save]
  split
  · split <;> rfl
  · rfl

/-- A table that is kept in a file is written there as it is, or the storage stays as it was. -/
theorem save_cases (format : RowFormat α) (result : β) (table : Table α) (storage : Storage) :
    (∃ after, Table.save format result (table, storage) = (.ok result, table, after) ∧
      (table.isPersistent = true →
        after.read (fileName table.name) = .ok (some (fileText format table.rows)))) ∨
    ∃ cause, Table.save format result (table, storage) = (.error (.io cause), table, storage) := by
  cases hp : table.isPersistent with
  | false => exact Or.inl ⟨storage, by rw [Table.save, if_neg (by rw [hp]; decide)], nofun⟩
  | true =>
    rw [Table.save, if_pos hp]
    cases hwrite : storage.write (fileName table.name) (fileText format table.rows) with
    | ok after => exact Or.inl ⟨after, rfl, fun _ => Storage.read_of_write hwrite⟩
    | error cause => exact Or.inr ⟨cause, rfl⟩

theorem update_of_none (format : RowFormat α) {id : Uuid} (change : α → β × α) {table : Table α}
    (storage : Storage) (h : table.rows.get? id = none) :
    Table.update format id change (table, storage) = (.error .notFound, table, storage) := by
  rw [Table.update, h]

theorem update_of_some (format : RowFormat α) {id : Uuid} (change : α → β × α) {table : Table α}
    (storage : Storage) {row : α} (h : table.rows.get? id = some row) :
    Table.update format id change (table, storage) =
      Table.save format (change row).1
        ({ table with rows := table.rows.insert id (change row).2 }, storage) := by
  rw [Table.update, h]

theorem delete_of_none (format : RowFormat α) {id : Uuid} {table : Table α} (storage : Storage)
    (h : table.rows.get? id = none) :
    Table.delete format id (table, storage) = (.error .notFound, table, storage) := by
  rw [Table.delete, h]

theorem delete_of_some (format : RowFormat α) {id : Uuid} {table : Table α} (storage : Storage)
    {row : α} (h : table.rows.get? id = some row) :
    Table.delete format id (table, storage) =
      Table.save format row ({ table with rows := table.rows.erase id }, storage) := by
  rw [Table.delete, h]

theorem get?_rows_insert (format : RowFormat α) (id key : Uuid) (row : α) (table : Table α)
    (storage : Storage) :
    (Table.insert format id row (table, storage)).2.1.rows.get? key =
      if id = key then some row else table.rows.get? key := by
  rw [Table.insert, rows_save]
  exact table.rows.get?_insert id key row

theorem get?_rows_update (format : RowFormat α) (id key : Uuid) (change : α → β × α)
    (table : Table α) (storage : Storage) :
    (Table.update format id change (table, storage)).2.1.rows.get? key =
      if id = key then (table.rows.get? key).map fun row => (change row).2
      else table.rows.get? key := by
  by_cases hkey : id = key
  · subst hkey
    rw [if_pos rfl, Table.update]
    cases hrow : table.rows.get? id with
    | none => exact hrow
    | some row =>
      simp only [rows_save, Dict.get?_insert, if_pos]
      rfl
  · rw [if_neg hkey, Table.update]
    cases hrow : table.rows.get? id with
    | none => rfl
    | some row => simp only [rows_save, Dict.get?_insert, if_neg hkey]

/-- What a change of a row makes of something about the rows. -/
theorem map_get?_rows_update {γ : Type} (format : RowFormat α) (id key : Uuid)
    (change : α → β × α) (measure : α → γ) (next : γ → γ)
    (h : ∀ row, measure (change row).2 = next (measure row)) (table : Table α)
    (storage : Storage) :
    ((Table.update format id change (table, storage)).2.1.rows.get? key).map measure =
      if id = key then ((table.rows.get? key).map measure).map next
      else (table.rows.get? key).map measure := by
  rw [get?_rows_update]
  by_cases hkey : id = key
  · rw [if_pos hkey, if_pos hkey, Option.map_map, Option.map_map]
    exact congrArg (Option.map · _) (funext h)
  · rw [if_neg hkey, if_neg hkey]

theorem get?_rows_delete (format : RowFormat α) (id key : Uuid) (table : Table α)
    (storage : Storage) :
    (Table.delete format id (table, storage)).2.1.rows.get? key =
      if id = key then none else table.rows.get? key := by
  rw [Table.delete]
  cases hrow : table.rows.get? id with
  | none =>
    by_cases hkey : id = key
    · rw [if_pos hkey, ← hkey]
      exact hrow
    · rw [if_neg hkey]
  | some row =>
    simp only [rows_save]
    exact table.rows.get?_erase id key

/-- The storage works for a table: its file can be written, if it has one. -/
def Works (table : Table α) (storage : Storage) : Prop :=
  table.isPersistent = true → storage.Accepts (fileName table.name)

/-- The storage holds the rows of a table, if it is kept in a file. -/
def Saved (format : RowFormat α) (table : Table α) (storage : Storage) : Prop :=
  table.isPersistent = true →
    storage.files.get? (fileName table.name) = some (fileText format table.rows)

/-- The storage with the file of a table written anew. -/
def written (format : RowFormat α) (table : Table α) (storage : Storage) : Storage :=
  { storage with files := storage.files.insert (fileName table.name) (fileText format table.rows) }

theorem save_of_accepts (format : RowFormat α) (result : β) {table : Table α} {storage : Storage}
    (hp : table.isPersistent = true) (h : storage.Accepts (fileName table.name)) :
    Table.save format result (table, storage) =
      (.ok result, table, written format table storage) := by
  rw [Table.save, if_pos hp, h.write]
  rfl

theorem save_of_works (format : RowFormat α) (result : β) {table : Table α} {storage : Storage}
    (h : table.Works storage) :
    ∃ after, Table.save format result (table, storage) = (.ok result, table, after) ∧
      table.Saved format after := by
  cases hp : table.isPersistent with
  | false =>
    refine ⟨storage, ?_, fun hpersistent => ?_⟩
    · rw [Table.save, if_neg (by rw [hp]; decide)]
    · rw [hp] at hpersistent
      cases hpersistent
  | true =>
    exact ⟨_, save_of_accepts format result hp (h hp),
      fun _ => (storage.files.get?_insert _ _ _).trans (if_pos rfl)⟩

/-- The storage after a table has been saved. -/
def afterSave (format : RowFormat α) (table : Table α) (storage : Storage) : Storage :=
  if table.isPersistent then written format table storage else storage

theorem save_eq_of_works (format : RowFormat α) (result : β) {table : Table α} {storage : Storage}
    (h : table.Works storage) :
    Table.save format result (table, storage) =
      (.ok result, table, afterSave format table storage) := by
  rw [afterSave]
  cases hp : table.isPersistent with
  | false => rw [Table.save, if_neg (by rw [hp]; decide), if_neg (by decide)]
  | true => rw [save_of_accepts format result hp (h hp), if_pos rfl]

theorem save_of_not_works (format : RowFormat α) (result : β) {table : Table α} {storage : Storage}
    (h : ¬ table.Works storage) :
    ∃ cause, Table.save format result (table, storage) = (.error (.io cause), table, storage) := by
  obtain ⟨hp, haccepts⟩ := Classical.not_imp.mp h
  obtain ⟨cause, hwrite⟩ := Storage.write_of_not_accepts haccepts (fileText format table.rows)
  exact ⟨cause, by rw [Table.save, if_pos hp, hwrite]⟩

/-- What worked for a table works on. -/
theorem Works.afterSave {format : RowFormat α} {table : Table α} {storage : Storage}
    (h : table.Works storage) : table.Works (table.afterSave format storage) := by
  intro hp
  rw [Table.afterSave, if_pos hp]
  exact (h hp).insert _

/-- A table that is saved already can be saved again. -/
theorem afterSave_of_saved {format : RowFormat α} {table : Table α} {storage : Storage}
    (h : table.Saved format storage) : afterSave format table storage = storage := by
  rw [afterSave]
  split
  · next hp => rw [written, Dict.insert_of_get? (h hp)]
  · rfl

theorem insert_of_works (format : RowFormat α) (id : Uuid) (row : α) {table : Table α}
    {storage : Storage} (h : table.Works storage) :
    ∃ after,
      Table.insert format id row (table, storage) =
        (.ok (), { table with rows := table.rows.insert id row }, after) ∧
      Table.Saved format { table with rows := table.rows.insert id row } after :=
  save_of_works format () (show ({ table with rows := table.rows.insert id row } : Table α).Works
    storage from h)

/-- A change of one row: a new row goes under its own identifier, and a row changes only as it
may. -/
inductive Edits (format : RowFormat α) (idOf : α → Uuid) (mayInsert : α → Prop)
    (mayBecome : α → α → Prop) (before : Table α × Storage) : Table α × Storage → Prop where
  | insert (row : α) (h : mayInsert row) :
      Edits format idOf mayInsert mayBecome before (Table.insert format (idOf row) row before).2
  | update {β : Type} (id : Uuid) (change : α → β × α) (h : ∀ row, mayBecome row (change row).2) :
      Edits format idOf mayInsert mayBecome before (Table.update format id change before).2
  | delete (id : Uuid) :
      Edits format idOf mayInsert mayBecome before (Table.delete format id before).2

/-- Every row is stored under its own identifier. -/
def Filed (idOf : α → Uuid) (table : Table α) : Prop :=
  ∀ key row, table.rows.get? key = some row → idOf row = key

section Crash

variable {format : RowFormat α} {id : Uuid} {change : α → Except String α}
  {before : Table α × Storage}

/-- A change that crashes where something about the row is at its limit. Elsewhere it is a change
like any other. -/
theorem updateOrCrash_eq {κ : Type} [DecidableEq κ] {measure : α → κ} {limit : κ}
    {message : String} {after : α → α}
    (h : ∀ row, change row = if measure row = limit then .error message else .ok (after row)) :
    updateOrCrash format id change before =
      if (before.1.rows.get? id).map measure = some limit then .error message
      else .ok (update format id (fun row => ((), after row)) before) := by
  rw [updateOrCrash, update]
  cases hrow : before.1.rows.get? id with
  | none => rfl
  | some row =>
    by_cases hlimit : measure row = limit
    · simp [h, hlimit]
      rfl
    · simp [h, hlimit]
      rfl

end Crash

section Edits

variable {format : RowFormat α} {idOf : α → Uuid} {mayInsert insertToo : α → Prop}
  {mayBecome becomeToo : α → α → Prop} {before after : Table α × Storage}

theorem Edits.mono (h : Edits format idOf mayInsert mayBecome before after)
    (hi : ∀ row, mayInsert row → insertToo row)
    (hb : ∀ row row', mayBecome row row' → becomeToo row row') :
    Edits format idOf insertToo becomeToo before after := by
  cases h with
  | insert row h => exact .insert row (hi row h)
  | update id change h => exact .update id change fun row => hb row _ (h row)
  | delete id => exact .delete id

/-- Where a row comes from. -/
theorem Edits.get?_eq_some (h : Edits format idOf mayInsert mayBecome before after) {key : Uuid}
    {row' : α} (hrow : after.1.rows.get? key = some row') :
    before.1.rows.get? key = some row' ∨ (idOf row' = key ∧ mayInsert row') ∨
      ∃ row, before.1.rows.get? key = some row ∧ mayBecome row row' := by
  obtain ⟨table, storage⟩ := before
  cases h with
  | insert new hnew =>
    rw [get?_rows_insert] at hrow
    split at hrow
    · next hkey =>
      obtain rfl := Option.some.inj hrow
      exact Or.inr (Or.inl ⟨hkey, hnew⟩)
    · exact Or.inl hrow
  | update id change hchange =>
    rw [get?_rows_update] at hrow
    split at hrow
    · obtain ⟨row, hold, rfl⟩ := Option.map_eq_some_iff.mp hrow
      exact Or.inr (Or.inr ⟨row, hold, hchange row⟩)
    · exact Or.inl hrow
  | delete id =>
    rw [get?_rows_delete] at hrow
    split at hrow
    · cases hrow
    · exact Or.inl hrow

theorem Edits.filed (h : Edits format idOf mayInsert mayBecome before after)
    (hb : ∀ row row', mayBecome row row' → idOf row' = idOf row) (hf : before.1.Filed idOf) :
    after.1.Filed idOf := by
  intro key row' hrow
  rcases h.get?_eq_some hrow with hsame | ⟨hid, -⟩ | ⟨row, hold, hbecome⟩
  · exact hf key row' hsame
  · exact hid
  · exact (hb row row' hbecome).trans (hf key row hold)

/-- The file of a table that is kept in one holds its rows after a change. -/
theorem Edits.written {table : Table α} {storage : Storage}
    (h : Edits format idOf mayInsert mayBecome (table, storage) after)
    (hp : table.isPersistent = true) (ha : storage.Accepts (fileName table.name)) :
    after = (table, storage) ∨ ∃ rows,
      after = ({ table with rows }, Table.written format { table with rows } storage) := by
  have hsave : ∀ {β : Type} (result : β) (rows : Dict Uuid α),
      (Table.save format result ({ table with rows }, storage)).2 =
        ({ table with rows }, Table.written format { table with rows } storage) :=
    fun result rows => congrArg Prod.snd (save_of_accepts format result
      (show ({ table with rows } : Table α).isPersistent = true from hp) ha)
  cases h with
  | insert row h => exact Or.inr ⟨_, hsave () _⟩
  | update id change h =>
    rw [Table.update]
    cases hrow : table.rows.get? id with
    | none => exact Or.inl rfl
    | some row => exact Or.inr ⟨_, hsave _ _⟩
  | delete id =>
    rw [Table.delete]
    cases hrow : table.rows.get? id with
    | none => exact Or.inl rfl
    | some row => exact Or.inr ⟨_, hsave _ _⟩

end Edits

end Table
end Automation
