import Automation.CommandLine
import Std.Time.DateTime.Timestamp

/-!
# The program

Reads the words of the command line, looks up the files they name, and prints what comes of it.
-/
namespace Automation.Main

open CommandLine

/-- A number that looks like chance: the bits of the seed and the index, stirred. -/
def stirred (seed index : Nat) : Nat :=
  let stir (bits : BitVec 128) (shift : Nat) : BitVec 128 :=
    (bits ^^^ (bits >>> shift)) * 0x9e3779b97f4a7c15f39cc0605cedc835#128
  (stir (stir (stir (BitVec.ofNat 128 (seed + index)) 61) 57) 65).toNat

/-- The identifier with these bits, marked as one that was drawn by chance. -/
def drawnId (bits : Nat) : Uuid :=
  let free : BitVec 128 := ~~~(0xf000c000000000000000#128)
  ⟨(BitVec.ofNat 128 bits &&& free) ||| 0x40008000000000000000#128⟩

def instantOfNanos (nanos : Int) : Instant :=
  ⟨nanos / 1000000000, (nanos % 1000000000).toNat⟩

/-- A world that starts now. Its clock goes on by a microsecond whenever it is read. -/
def worldFrom (seed : Nat) (nanos : Int) : World Transcript where
  handlers := []
  unknownDispatches := 0
  ids := ⟨fun n => drawnId (stirred seed n), 0⟩
  clock := ⟨fun n => instantOfNanos (nanos + 1000 * n), 0⟩
  dice := ⟨fun n => stirred (seed + 1) n, 0⟩
  tasks := ⟨id, 0⟩

/-- The cause of a failure as the system tells it. -/
def pathError : IO.Error → PathError
  | .noFileOrDirectory .. => .missing
  | .alreadyExists .. => .occupied
  | .inappropriateType _ _ "not a directory" => .notFolder
  | .inappropriateType _ 21 _ => .isFolder
  | e => .other (toString e)

def readText (path : String) : IO (Except PathError String) := do
  try
    let bytes ← IO.FS.readBinFile path
    return match String.fromUTF8? bytes with
      | some text => .ok text
      | none => .error .notText
  catch e => return .error (pathError e)

/-- The files of the tables in a folder, which is made if it is missing. -/
def readStorage (path : String) : IO (Except PathError Storage) := do
  try
    IO.FS.createDirAll path
    let mut files : Dict String String := Dict.empty
    for name in ["scripts", "workflows"].map Table.fileName do
      match ← readText (path ++ "/" ++ name) with
      | .ok text => files := files.insert name text
      | .error .missing => pure ()
      | .error cause => return .error cause
    return .ok ⟨files, true⟩
  catch e => return .error (pathError e)

/-- The files that an invocation asks for. -/
def filesFor (invocation : Invocation) : IO Files := do
  let text ← match invocation.path? with
    | some path => readText path
    | none => pure (.error .missing)
  let storage ← match invocation.folder? with
    | some path => readStorage path
    | none => pure (.error .missing)
  return ⟨fun _ => text, fun _ => storage⟩

def seedOfBytes (bytes : ByteArray) : Nat :=
  bytes.toList.foldl (fun seed byte => 256 * seed + byte.toNat) 0

def run (words : List String) : IO UInt32 := do
  match Invocation.ofWords? words with
  | none =>
    (← IO.getStderr).putStr Invocation.helpText
    return UInt32.ofNat Output.misuseCode
  | some invocation =>
    let seed := seedOfBytes (← IO.getRandomBytes 16)
    let now := (← Std.Time.Timestamp.now).toNanosecondsSinceUnixEpoch.val
    let output := invocation.answer (worldFrom seed now) (← filesFor invocation)
    IO.sleep (UInt32.ofNat (min output.elapsed 0xffffffff))
    (← IO.getStdout).putStr output.standardOutput
    (← IO.getStderr).putStr output.standardError
    return UInt32.ofNat output.exitCode

end Automation.Main

def main (words : List String) : IO UInt32 := Automation.Main.run words
