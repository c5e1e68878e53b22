import Automation.Json.Decoder
import Automation.Json.Printer
import Automation.Storage

/-!
# Tables

A table holds rows under identifiers. A persistent table is written to its file after every change,
as a whole. The change of the rows comes first and stays even if the writing fails, so the file
holds the rows as they were after the last change that could be written.
-/
namespace Automation

/-- Why a table could not do what it was asked. -/
inductive StorageError where
  | notFound
  | io (cause : PathError)
  | corrupt (fault : Fault)
  deriving DecidableEq

def StorageError.message : StorageError → String
  | notFound => "row not found"
  | io cause => "storage I/O error: " ++ cause.message
  | corrupt fault => "corrupt table data: " ++ fault.message

/-- How rows are written and read. -/
structure RowFormat (α : Type) where
  encode : α → Json
  decode : Decoder α

structure Table (α : Type) where
  name : String
  isPersistent : Bool
  rows : Dict Uuid α

/-- A change of a table and its storage, with a result. -/
abbrev Table.Change (α β : Type) := Table α × Storage → Except StorageError β × Table α × Storage

namespace Table

variable {α β : Type}

def fileName (name : String) : String := name ++ ".json"

/-- The rows as a JSON object, in their order. -/
def rowsJson (format : RowFormat α) (rows : Dict Uuid α) : Json :=
  .object (rows.entries.map fun (id, row) => (id.text, format.encode row))

/-- The text of the file that holds these rows. -/
def fileText (format : RowFormat α) (rows : Dict Uuid α) : String :=
  (rowsJson format rows).pretty

/-- The rows that the text of a file says. -/
def readRows (format : RowFormat α) (text : String) : Except StorageError (Dict Uuid α) :=
  (Decoder.dictOf Uuid.ofText? format.decode (Document.ofText text)).mapError .corrupt

/-- A table that is not written anywhere. -/
def transient (name : String) : Table α := ⟨name, false, Dict.empty⟩

/-- The table as it was last written; a table without a file is empty, and so is one that is not
persistent. -/
def load (format : RowFormat α) (name : String) (isPersistent : Bool) (storage : Storage) :
    Except StorageError (Table α) := do
  match ← if isPersistent then (storage.read (fileName name)).mapError .io else .ok none with
  | none => .ok ⟨name, isPersistent, Dict.empty⟩
  | some text => (readRows format text).map fun rows => ⟨name, isPersistent, rows⟩

/-- Writes the table to its file, if it has one, and then returns the result. -/
def save (format : RowFormat α) (result : β) : Change α β := fun (table, storage) =>
  if table.isPersistent then
    match storage.write (fileName table.name) (fileText format table.rows) with
    | .ok storage => (.ok result, table, storage)
    | .error cause => (.error (.io cause), table, storage)
  else (.ok result, table, storage)

def get (table : Table α) (id : Uuid) : Except StorageError α :=
  match table.rows.get? id with
  | some row => .ok row
  | none => .error .notFound

def list (table : Table α) : List α := table.rows.values

/-- Sets a row. -/
def insert (format : RowFormat α) (id : Uuid) (row : α) : Change α Unit := fun (table, storage) =>
  save format () ({ table with rows := table.rows.insert id row }, storage)

/-- Changes a row in its place. -/
def update (format : RowFormat α) (id : Uuid) (change : α → β × α) : Change α β :=
  fun (table, storage) =>
    match table.rows.get? id with
    | none => (.error .notFound, table, storage)
    | some row =>
      let (result, row) := change row
      save format result ({ table with rows := table.rows.insert id row }, storage)

/-- Changes a row in its place by something that may crash; a crash comes before any change. -/
def updateOrCrash (format : RowFormat α) (id : Uuid) (change : α → Except String α)
    (before : Table α × Storage) : Except String (Except StorageError Unit × Table α × Storage) :=
  match before.1.rows.get? id with
  | none => .ok (.error .notFound, before)
  | some row => (change row).map fun row => insert format id row before

/-- Removes a row and returns it. -/
def delete (format : RowFormat α) (id : Uuid) : Change α α := fun (table, storage) =>
  match table.rows.get? id with
  | none => (.error .notFound, table, storage)
  | some row => save format row ({ table with rows := table.rows.erase id }, storage)

end Table
end Automation
