import Automation.Program.Parser
import Automation.Token.Scanner

/-!
# Diagnostics

What an editor is told about a script. A script that does not compile has one error. A script that
compiles has warnings only: one for each run of tokens that belong to no rule, and one for each
call of a command that nobody knows, in the order of the text.
-/
namespace Automation

inductive Severity where
  | error
  | warning
  deriving DecidableEq, Inhabited

structure Diagnostic where
  line : Nat
  column : Nat
  message : String
  severity : Severity
  deriving DecidableEq, Inhabited

namespace Diagnostic

def isError (d : Diagnostic) : Bool := d.severity == .error

def ofSyntaxError (e : SyntaxError) : Diagnostic :=
  ⟨e.line, e.column, e.message, .error⟩

def warningAt (token : Token) (message : String) : Diagnostic :=
  ⟨token.line, token.column, message, .warning⟩

/-- The warning for a run of tokens outside every rule. -/
def ignored (first : Token) : Diagnostic :=
  warningAt first ("Ignored top-level tokens starting at '" ++ first.value ++ "'")

def unknownCommand (name : Token) : Diagnostic :=
  warningAt name ("Unknown command '" ++ name.value ++ "'")

/-- The commands that a run carries out itself. -/
def builtinCommands : List String := ["wait"]

/-- The calls of unknown commands among the tokens of a block: an identifier before an opening
parenthesis names a command. -/
def unknownCalls (known : List String) : List Token → List Diagnostic
  | name :: mark :: rest =>
    let later := unknownCalls known (mark :: rest)
    if name.kind = .identifier ∧ mark.isSymbol "(" ∧ ¬ known.contains name.value then
      unknownCommand name :: later
    else later
  | _ => []

/-- The warnings of a script that parses; `stray` is the first token of the run of ignored tokens
that has not been closed yet. -/
def warnings (known : List String) (stray : Option Token) (tokens : List Token) :
    List Diagnostic :=
  match tokens with
  | [] => (stray.map ignored).toList
  | token :: rest =>
    match Opener.ofToken? token with
    | none => warnings known (stray.or (some token)) rest
    | some opener =>
      match _h : Parser.blockBody opener rest with
      | .error _ => (stray.map ignored).toList
      | .ok (_, later) =>
        let block := (token :: rest).take (rest.length + 1 - later.length)
        (stray.map ignored).toList ++ unknownCalls known block ++ warnings known none later
termination_by tokens.length
decreasing_by
  · simp
  · have := Parser.length_blockBody _h
    simp only [List.length_cons]
    omega

end Diagnostic

/-- The program that a script says. -/
def Program.compile (code : String) : Except SyntaxError Program :=
  Program.ofTokens (Token.scan code)

namespace Diagnostic

/-- The errors of a script: none, or the one that stops the parse. -/
def errorsOf (code : String) : List Diagnostic :=
  match Program.compile code with
  | .ok _ => []
  | .error e => [ofSyntaxError e]

/-- The errors of a script, or else its warnings, given the commands that are known besides the
built-in ones. -/
def allOf (code : String) (known : List String) : List Diagnostic :=
  match errorsOf code with
  | [] => warnings (known ++ builtinCommands) none (Token.scan code)
  | errors => errors

end Diagnostic
end Automation
