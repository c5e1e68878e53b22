import Automation.Storage
import Automation.Text.Split

/-!
# Folders of texts

A folder is known by the texts of its files, each under its path from the folder. Paths are followed
one segment after the other, so a path through something that is missing leads nowhere even if it
turns back at once. Of what is outside the folder nothing is known but that it is there.
-/
namespace Automation

structure Folder where
  files : Dict String String

namespace Folder

/-- Where a path leads: to a file, to a folder inside, or out. -/
inductive Place where
  | file (text : String)
  | inside (path : List String)
  | outside
  deriving DecidableEq

/-- The longest name of a file or a folder, in bytes. -/
def maxNameLength : Nat := 255

def pathText (path : List String) : String := String.intercalate "/" path

/-- The files below a folder, each under its path from there. -/
def below (folder : Folder) (path : List String) : List (String × String) :=
  let start := path.flatMap fun name => name.toList ++ ['/']
  folder.files.entries.filterMap fun (name, text) =>
    if start.isPrefixOf name.toList then
      some (String.ofList (name.toList.drop start.length), text)
    else none

/-- Goes on by one segment. -/
def enter (folder : Folder) (place : Place) (name : String) : Except PathError Place :=
  if maxNameLength < name.utf8ByteSize then .error .nameTooLong
  else
    match place with
    | .file _ => .error .notFolder
    | .outside => if ["", ".", ".."].contains name then .ok .outside else .error .missing
    | .inside path =>
      if ["", "."].contains name then .ok place
      else if name = ".." then .ok (if path.isEmpty then .outside else .inside path.dropLast)
      else
        match folder.files.get? (pathText (path ++ [name])) with
        | some text => .ok (.file text)
        | none =>
          if (folder.below (path ++ [name])).isEmpty then .error .missing
          else .ok (.inside (path ++ [name]))

/-- Where a path starts, and its segments. -/
def itinerary (path : String) : Place × List String :=
  match Text.splitAt '/' path with
  | "" :: segments => (.outside, segments)
  | segments => (.inside [], segments)

/-- The text of a file. -/
def read (folder : Folder) (path : String) : Except PathError String := do
  let (start, segments) := itinerary path
  match ← segments.foldlM folder.enter start with
  | .file text => .ok text
  | _ => .error .isFolder

/-- Goes on by one segment and makes a folder of what is missing. -/
def enterOrMake (folder : Folder) (place : Place) (name : String) : Except PathError Place :=
  match folder.enter place name, place with
  | .error .missing, .inside path => .ok (.inside (path ++ [name]))
  | .error .missing, _ => .ok .outside
  | result, _ => result

/-- The files right in a folder, which is made if it is missing. -/
def storage (folder : Folder) (path : String) : Except PathError Storage := do
  let (start, segments) := itinerary path
  match ← (segments.filter fun name => name ≠ "").foldlM folder.enterOrMake start with
  | .file _ => .error .occupied
  | .inside path => .ok ⟨Dict.ofList (folder.below path), true⟩
  | .outside => .ok Storage.empty

end Folder
end Automation
