import Automation.Text.Split

/-!
# Forms of commands

A command line is a list of words. A form says which words a command takes: perhaps a path, and
options, each of which is a switch or has a value. The value is the word after the option, or what
follows an equals sign in the same word. Words after a double hyphen are no options. Help is given
as soon as it is asked for, unless something before was wrong.
-/
namespace Automation.CommandLine

/-- An option. -/
structure Flag where
  name : String
  /-- What the value is called; a switch has none. -/
  valueName : Option String
  isRepeatable : Bool
  /-- Whether a text will do as the value. -/
  accepts : String → Bool
  summary : String

namespace Flag

def switch (name summary : String) : Flag := ⟨name, none, false, fun _ => true, summary⟩

def single (name valueName summary : String) : Flag :=
  ⟨name, some valueName, false, fun _ => true, summary⟩

def usage (flag : Flag) : String :=
  "--" ++ flag.name ++ (flag.valueName.map fun name => " <" ++ name ++ ">").getD ""

end Flag

structure Form where
  name : String
  summary : String
  hasPath : Bool
  flags : List Flag

/-- Why a command line is not carried out. -/
inductive Stop where
  | misuse
  | help
  deriving DecidableEq

/-- What the words so far say. -/
structure Filled where
  path : Option String
  /-- The options with their values in the order of the words; a switch has an empty value. -/
  options : List (String × String)
  /-- The option whose value is the next word. -/
  pending : Option Flag
  isPastOptions : Bool

namespace Filled

def empty : Filled := ⟨none, [], none, false⟩

def values (filled : Filled) (name : String) : List String :=
  (filled.options.filter fun option => option.1 == name).map Prod.snd

def value? (filled : Filled) (name : String) : Option String := (filled.values name).head?

def isSet (filled : Filled) (name : String) : Bool := (filled.value? name).isSome

/-- Adds an option that may be given, with a value that will do. -/
def add (filled : Filled) (flag : Flag) (value : String) : Except Stop Filled :=
  if (filled.isSet flag.name && !flag.isRepeatable) || !flag.accepts value then .error .misuse
  else .ok { filled with options := filled.options ++ [(flag.name, value)], pending := none }

end Filled

/-- What a word looks like. -/
inductive Word where
  | doubleHyphen
  | long (name : String) (value : Option String)
  | short (letters : List Char)
  | plain

/-- A single hyphen is a plain word. -/
def Word.ofText (text : String) : Word :=
  match text.toList with
  | ['-', '-'] => doubleHyphen
  | '-' :: '-' :: rest =>
    match Text.cutAtFirst? '=' (String.ofList rest) with
    | some (name, value) => long name (some value)
    | none => long (String.ofList rest) none
  | '-' :: c :: rest => short (c :: rest)
  | _ => plain

namespace Form

def takePath (form : Form) (filled : Filled) (text : String) : Except Stop Filled :=
  if form.hasPath && filled.path.isNone && !text.isEmpty then
    .ok { filled with path := some text }
  else .error .misuse

def takeLong (form : Form) (filled : Filled) (name : String) (value : Option String) :
    Except Stop Filled :=
  match form.flags.find? fun flag => flag.name == name with
  | none => .error (if name = "help" && value.isNone then .help else .misuse)
  | some flag =>
    match flag.valueName, value with
    | none, none => filled.add flag ""
    | none, some _ => .error .misuse
    | some _, some value => filled.add flag value
    | some _, none => .ok { filled with pending := some flag }

/-- Takes one word. An option that still waits for its value gets a plain word only. -/
def take (form : Form) (filled : Filled) (text : String) : Except Stop Filled :=
  if filled.isPastOptions then form.takePath filled text
  else
    match filled.pending, Word.ofText text with
    | some flag, .plain => filled.add flag text
    | some _, _ => .error .misuse
    | none, .plain => form.takePath filled text
    | none, .doubleHyphen => .ok { filled with isPastOptions := true }
    | none, .long name value => form.takeLong filled name value
    | none, .short letters => .error (if letters.head? = some 'h' then .help else .misuse)

/-- What all words say; no value and no path may be missing. -/
def fill (form : Form) (words : List String) : Except Stop Filled := do
  let filled ← words.foldlM form.take Filled.empty
  if filled.pending.isSome || (form.hasPath && filled.path.isNone) then .error .misuse
  else .ok filled

/-- Pairs of texts in two columns. -/
def columns (rows : List (String × String)) : String :=
  let width := (rows.map fun row => row.1.length).foldl max 0
  String.join <| rows.map fun (left, right) =>
    "  " ++ left ++ String.ofList (List.replicate (width - left.length + 2) ' ') ++ right ++ "\n"

def helpRow : String × String := ("-h, --help", "Print help")

/-- What is told about a command that somebody needs help with. -/
def help (form : Form) (program : String) : String :=
  let options := if form.flags.isEmpty then "" else " [OPTIONS]"
  let path := if form.hasPath then " <PATH>" else ""
  let rows := form.flags.map fun flag => ("    " ++ flag.usage, flag.summary)
  form.summary ++ "\n\nUsage: " ++ program ++ " " ++ form.name ++ options ++ path
    ++ "\n\nOptions:\n" ++ columns (rows ++ [helpRow])

end Form
end Automation.CommandLine
