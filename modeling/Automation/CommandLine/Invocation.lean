import Automation.CommandLine.Form
import Automation.Placeholder
import Automation.Workflow.Run

/-!
# Invocations

What the program is asked to do by its command line.
-/
namespace Automation.CommandLine

inductive Invocation where
  | validate (path : String)
  | tokens (path : String)
  /-- Runs every rule of a script, or those that an event sets off. -/
  | run (path : String) (event : Option String) (context : Context)
  | convert (path : String)
  | execute (path : String) (context : Context) (order : Workflow.Order)
  /-- Offers the interface at an address; scripts and workflows are kept in a folder or nowhere. -/
  | serve (address : String) (folder : Option String) (order : Workflow.Order)
  /-- Prints a text about the program. -/
  | inform (text : String)
  deriving Inhabited

namespace Invocation

/-- The file that is read. -/
def path? : Invocation → Option String
  | validate path => some path
  | tokens path => some path
  | run path _ _ => some path
  | convert path => some path
  | execute path _ _ => some path
  | serve .. => none
  | inform _ => none

/-- The folder in which everything is kept. -/
def folder? : Invocation → Option String
  | serve _ folder _ => folder
  | _ => none

def programName : String := "automation"

def version : String := "0.1.0"

def defaultAddress : String := "127.0.0.1:8080"

/-- The key and the value of a context entry; blanks around the key do not matter. -/
def keyAndValue? (text : String) : Option (String × String) :=
  (Text.cutAtFirst? '=' text).map fun (key, value) => (Text.trim key, value)

def setFlag : Flag :=
  ⟨"set", some "KEY=VALUE", true, fun text => (keyAndValue? text).isSome,
    "Context entry, repeatable"⟩

def orderFlag : Flag :=
  .switch "topological" "Run workflow nodes in connection order instead of stored order"

def folderFlag : Flag :=
  ⟨"data-dir", some "DATA_DIR", false, fun text => !text.isEmpty,
    "Persist scripts and workflows here; in-memory when omitted"⟩

def order (filled : Filled) : Workflow.Order :=
  if filled.isSet orderFlag.name then .topological else .stored

/-- The context entries; the last of several with one key wins. -/
def context (filled : Filled) : Context :=
  Dict.ofList ((filled.values setFlag.name).filterMap keyAndValue?)

/-- The commands: their forms, and what they ask for when filled in. -/
def commands : List (Form × (Filled → Invocation)) :=
  let path (filled : Filled) : String := filled.path.getD ""
  [(⟨"validate", "Validate a script file and print its diagnostics", true, []⟩,
      fun filled => validate (path filled)),
    (⟨"tokens", "Print the tokens of a script file", true, []⟩,
      fun filled => tokens (path filled)),
    (⟨"run", "Run a script. Commands are echoed to stdout instead of executed", true,
        [.single "event" "EVENT" "Deliver this event instead of running every rule once",
          setFlag]⟩,
      fun filled => run (path filled) (filled.value? "event") (context filled)),
    (⟨"convert", "Convert a script's first rule to workflow JSON", true, []⟩,
      fun filled => convert (path filled)),
    (⟨"execute", "Execute an exported workflow JSON file", true, [setFlag, orderFlag]⟩,
      fun filled => execute (path filled) (context filled) (order filled)),
    (⟨"serve", "Start the REST API server", false,
        [.single "bind" "BIND" ("Address to listen on, " ++ defaultAddress ++ " when omitted"),
          folderFlag, orderFlag]⟩,
      fun filled => serve ((filled.value? "bind").getD defaultAddress)
        (filled.value? folderFlag.name) (order filled))]

def helpForm : Form :=
  ⟨"help", "Print this message or the help of the given subcommand(s)", false, []⟩

def helpText : String :=
  let forms := commands.map Prod.fst ++ [helpForm]
  "Stream automation scripting and workflow engine\n\nUsage: " ++ programName
    ++ " <COMMAND>\n\nCommands:\n" ++ Form.columns (forms.map fun form => (form.name, form.summary))
    ++ "\nOptions:\n" ++ Form.columns [Form.helpRow, ("-V, --version", "Print version")]

/-- The help about one command, or about all. -/
def helpAbout : List String → Option Invocation
  | [] => some (inform helpText)
  | [name] =>
    ((commands.map Prod.fst ++ [helpForm]).find? fun form => form.name == name).map fun form =>
      inform (form.help programName)
  | _ => none

/-- What is asked for without any command. -/
def ofWord? (word : String) : Option Invocation :=
  match Word.ofText word with
  | .long "help" none => some (inform helpText)
  | .long "version" none => some aboutVersion
  | .short ('h' :: _) => some (inform helpText)
  | .short ('V' :: _) => some aboutVersion
  | _ => none
where
  aboutVersion : Invocation := inform (programName ++ " " ++ version ++ "\n")

/-- What a command line asks for, if it makes sense. The first word names the command, or asks for
help or the version. -/
def ofWords? : List String → Option Invocation
  | [] => none
  | first :: rest =>
    match commands.find? fun command => command.1.name == first with
    | some (form, meant) =>
      match form.fill rest with
      | .ok filled => some (meant filled)
      | .error .help => some (inform (form.help programName))
      | .error .misuse => none
    | none => if first = helpForm.name then helpAbout rest else ofWord? first

end Invocation
end Automation.CommandLine
