import Automation.Dict

/-!
# Storage

The folder that tables are kept in, as the texts of its files, and what can go wrong with a path.
-/
namespace Automation

/-- Why a path cannot be used. -/
inductive PathError where
  | missing
  /-- Something is there already, and it is no folder. -/
  | occupied
  /-- A file stands where the path goes on. -/
  | notFolder
  | isFolder
  | nameTooLong
  | notText
  | other (reason : String)
  deriving DecidableEq

def PathError.message : PathError → String
  | missing => "No such file or directory (os error 2)"
  | occupied => "File exists (os error 17)"
  | notFolder => "Not a directory (os error 20)"
  | isFolder => "Is a directory (os error 21)"
  | nameTooLong => "File name too long (os error 36)"
  | notText => "stream did not contain valid UTF-8"
  | other reason => reason

/-- The files of a folder. Nothing can be written while the folder is gone. -/
structure Storage where
  files : Dict String String
  isWritable : Bool

namespace Storage

def empty : Storage := ⟨Dict.empty, true⟩

/-- The folder is deleted with all that is in it. -/
def gone : Storage := ⟨Dict.empty, false⟩

/-- The folder is made anew if it is gone. -/
def restored (s : Storage) : Storage := { s with isWritable := true }

/-- Whether a name is that of a folder: another file is inside. -/
def isFolder (s : Storage) (name : String) : Bool :=
  s.files.keys.any fun file => (name ++ "/").toList.isPrefixOf file.toList

/-- The text of a file, if there is one. -/
def read (s : Storage) (name : String) : Except PathError (Option String) :=
  if s.isFolder name then .error .isFolder
  else .ok (s.files.get? name)

/-- Where a new version of a file is written before it takes the file's place. -/
def draftName (name : String) : String := name ++ ".tmp"

/-- Replaces a file, or leaves it as it is and fails. -/
def write (s : Storage) (name text : String) : Except PathError Storage :=
  if !s.isWritable then .error .missing
  else if s.isFolder (draftName name) || s.isFolder name then .error .isFolder
  else .ok { s with files := s.files.insert name text }

end Storage
end Automation
