import Automation.Proofs.Json.Record
import Automation.Proofs.Table

/-!
# The file of a table

A table that is kept in a file is written there as one object around its rows. What is read of the
file is the rows, if each of them comes back from its place in it; since the file adds a level, a
row may be nested one level less there than by itself.
-/
namespace Automation

/-- No file of a folder lies in a folder inside, so every name is free to be that of a file. -/
structure Storage.Flat (s : Storage) : Prop where
  isWritable : s.isWritable = true
  names : ∀ name ∈ s.files.keys, '/' ∉ name.toList

theorem Storage.Flat.isFolder {s : Storage} (h : s.Flat) (name : String) :
    s.isFolder name = false := by
  rw [Storage.isFolder, List.any_eq_false]
  intro file hfile hprefix
  have hslash : '/' ∈ (name ++ "/").toList := by simp
  exact h.names file hfile ((List.isPrefixOf_iff_prefix.mp hprefix).mem hslash)

theorem Storage.Flat.accepts {s : Storage} (h : s.Flat) (name : String) : s.Accepts name :=
  ⟨h.isWritable, h.isFolder name, h.isFolder _⟩

namespace Table

variable {α : Type} {format : RowFormat α} {table : Table α} {storage : Storage}

theorem flat_written (h : storage.Flat) (hname : '/' ∉ (fileName table.name).toList) :
    (written format table storage).Flat := by
  refine ⟨h.isWritable, fun name hmem => ?_⟩
  have hkeys : name ∈ (setEntry (fileName table.name) (fileText format table.rows)
      storage.files.entries).map Prod.fst := hmem
  rw [keys_setEntry] at hkeys
  split at hkeys
  · exact h.names name hkeys
  · rcases List.mem_append.mp hkeys with hkeys | hkeys
    · exact h.names name hkeys
    · rwa [List.mem_singleton.mp hkeys]

/-- A row comes back from its JSON form, and what is read of it inside the file was not nested too
deep. -/
structure Returns (format : RowFormat α) (row : α) : Prop where
  legible : (format.encode row).Legible
  decode : format.decode (format.encode row).toDocument = .ok row
  depth : ∀ read, format.decode ((format.encode row).documentAt 1) = .ok read →
    (format.encode row).depth + 1 < Document.nestingLimit

section Rows

variable {rows : Dict Uuid α}

theorem rowsJson_eq_map (format : RowFormat α) (rows : Dict Uuid α) :
    rowsJson format rows =
      .object (rows.entries.map fun entry => (entry.1.text, format.encode entry.2)) := rfl

/-- What is read of a file are the rows in their places, inside one container. -/
theorem ofText_fileText (h : ∀ entry ∈ rows.entries, (format.encode entry.2).Legible) :
    Document.ofText (fileText format rows) =
      .object (rows.entries.map fun entry =>
        (entry.1.text, (format.encode entry.2).documentAt 1)) true := by
  have hlegible : (rowsJson format rows).Legible :=
    Json.legibleMembers_of_forall (List.forall_mem_map.mpr h)
  rw [fileText, Json.ofText_pretty hlegible, rowsJson_eq_map, Json.documentAt,
    if_pos (by decide), Json.membersAt_eq_map, List.map_map]
  rfl

/-- A row comes back from its place in the file. -/
structure Rereads (format : RowFormat α) (row : α) : Prop where
  legible : (format.encode row).Legible
  decode : format.decode ((format.encode row).documentAt 1) = .ok row

theorem readRows_fileText (h : ∀ entry ∈ rows.entries, Rereads format entry.2) :
    readRows format (fileText format rows) = .ok rows := by
  have hrows := @Decoder.dictOf_of_entries _ _ _ Uuid.ofText? Uuid.text format.decode
    Uuid.ofText?_text (fun row => (format.encode row).documentAt 1) rows
    fun entry hentry => (h entry hentry).decode
  rw [readRows, ofText_fileText fun entry hentry => (h entry hentry).legible, hrows]
  rfl

/-- A row that is not nested too deep for the file comes back from it. -/
theorem Returns.rereads {row : α} (h : Returns format row)
    (hdepth : (format.encode row).depth + 1 < Document.nestingLimit) : Rereads format row :=
  ⟨h.legible, (Json.documentAt_of_depth _ hdepth).symm ▸ h.decode⟩

/-- Rows that come back from the text of their file were not nested too deep. -/
theorem depth_of_readRows (h : ∀ entry ∈ rows.entries, Returns format entry.2)
    {read : Dict Uuid α} (hread : readRows format (fileText format rows) = .ok read) :
    ∀ entry ∈ rows.entries, (format.encode entry.2).depth + 1 < Document.nestingLimit := by
  have hdecode := ok_of_mapError hread
  rw [ofText_fileText fun entry hentry => (h entry hentry).legible] at hdecode
  intro entry hentry
  obtain ⟨row, hrow⟩ := Decoder.members_of_dictOf hdecode _ (List.mem_map_of_mem hentry)
  exact (h entry hentry).depth row hrow

end Rows

theorem load_of_flat (format : RowFormat α) (name : String) (h : storage.Flat) :
    Table.load format name true storage =
      match storage.files.get? (fileName name) with
      | none => .ok ⟨name, true, Dict.empty⟩
      | some text => (readRows format text).map fun rows => ⟨name, true, rows⟩ := by
  rw [Table.load, if_pos rfl, Storage.read, h.isFolder]
  rfl

/-- The file of a table holds its rows; a table without rows may have no file. -/
structure Kept (format : RowFormat α) (name : String) (table : Table α) (storage : Storage) :
    Prop where
  named : table.name = name
  isPersistent : table.isPersistent = true
  file : storage.files.get? (fileName name) = some (fileText format table.rows) ∨
    storage.files.get? (fileName name) = none ∧ table.rows = Dict.empty

section Kept

variable {name : String}

/-- A table is opened as it is kept. -/
theorem Kept.load (h : table.Kept format name storage) (hflat : storage.Flat)
    (hrows : ∀ entry ∈ table.rows.entries, Returns format entry.2)
    (hdepth : ∀ entry ∈ table.rows.entries,
      (format.encode entry.2).depth + 1 < Document.nestingLimit) :
    Table.load format name true storage = .ok table := by
  obtain ⟨ownName, isPersistent, rows⟩ := table
  obtain ⟨rfl, rfl, hfile⟩ := h
  rw [load_of_flat format ownName hflat]
  rcases hfile with hfile | ⟨hfile, rfl⟩
  · rw [hfile]
    simp only [readRows_fileText fun entry hentry =>
      (hrows entry hentry).rereads (hdepth entry hentry)]
    rfl
  · rw [hfile]

theorem Kept.depth_of_load (h : table.Kept format name storage) (hflat : storage.Flat)
    (hrows : ∀ entry ∈ table.rows.entries, Returns format entry.2) {opened : Table α}
    (hload : Table.load format name true storage = .ok opened) :
    ∀ entry ∈ table.rows.entries, (format.encode entry.2).depth + 1 < Document.nestingLimit := by
  rw [load_of_flat format name hflat] at hload
  rcases h.file with hfile | ⟨-, hempty⟩
  · simp only [hfile] at hload
    obtain ⟨read, hread⟩ := ok_of_map hload
    exact depth_of_readRows hrows hread
  · rw [hempty]
    exact List.forall_mem_nil _

/-- A change of one table leaves it kept, and the files of the others as they are. -/
theorem Kept.edits {idOf : α → Uuid} {mayInsert : α → Prop} {mayBecome : α → α → Prop}
    {changed : Table α} {after : Storage} (h : table.Kept format name storage)
    (hflat : storage.Flat) (hname : '/' ∉ (fileName name).toList)
    (hedits : Edits format idOf mayInsert mayBecome (table, storage) (changed, after)) :
    changed.Kept format name after ∧ after.Flat ∧
      ∀ other, other ≠ fileName name → after.files.get? other = storage.files.get? other := by
  obtain ⟨rfl, hpersistent, hfile⟩ := h
  rcases hedits.written hpersistent (hflat.accepts _) with he | ⟨rows, he⟩
  · obtain ⟨rfl, rfl⟩ := Prod.mk.inj he
    exact ⟨⟨rfl, hpersistent, hfile⟩, hflat, fun _ _ => rfl⟩
  · obtain ⟨rfl, rfl⟩ := Prod.mk.inj he
    refine ⟨⟨rfl, hpersistent, Or.inl ?_⟩, flat_written hflat hname, fun other hother => ?_⟩
    · exact (storage.files.get?_insert _ _ _).trans (if_pos rfl)
    · exact (storage.files.get?_insert _ _ _).trans (if_neg hother.symm)

theorem Kept.of_file (h : table.Kept format name storage) {after : Storage}
    (hfile : after.files.get? (fileName name) = storage.files.get? (fileName name)) :
    table.Kept format name after :=
  ⟨h.named, h.isPersistent, hfile ▸ h.file⟩

end Kept

end Table

end Automation
