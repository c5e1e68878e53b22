import Automation.Program
import Automation.Token

/-!
# Parsing

The rules of a script, read from its tokens:

    Program    := RuleBlock*
    RuleBlock  := WhenBlock | OnBlock | EveryBlock
    WhenBlock  := "when" EVENT [ COMPARISON VALUE ] "then" ActionList "end"
    OnBlock    := "on" EVENT "do" ActionList "end"
    EveryBlock := "every" NUMBER UNIT "do" ActionList "end"
    ActionList := ( IDENTIFIER "(" ArgList? ")" )*
    ArgList    := Arg ( "," Arg )*
    Arg        := STRING | NUMBER

Between the blocks every token that opens none is passed over. Inside a block the first token that
does not fit ends the parse; when the tokens run out instead, the error stands at the last of them.
-/
namespace Automation

/-- The keywords that open a rule block. -/
inductive Opener where
  | whenever
  | on
  | every
  deriving DecidableEq, Inhabited

namespace Opener

def word : Opener → String
  | whenever => "when"
  | on => "on"
  | every => "every"

def ofToken? (token : Token) : Option Opener :=
  [whenever, on, every].find? fun opener => token.isKeyword opener.word

end Opener

/-- What the parser missed. -/
inductive Missing where
  | block
  | opener (found : String)
  | eventName (after : Opener)
  | operand (after : Comparison)
  | consequence
  | body (after : Opener)
  | amount
  | unit (amount : String)
  | closing (of : Opener)
  | command (found : String)
  | argumentList (command : String)
  | separator
  | argument
  | number (found : String)
  deriving DecidableEq

namespace Missing

def message : Missing → String
  | block => "Expected a rule block"
  | opener found => "Expected 'when', 'on' or 'every', found '" ++ found ++ "'"
  | eventName after => "Expected event name after '" ++ after.word ++ "'"
  | operand after => "Expected value after '" ++ after.text ++ "'"
  | consequence => "Expected 'then' after 'when' trigger"
  | body .every => "Expected 'do' after schedule"
  | body after => "Expected 'do' after '" ++ after.word ++ "' event name"
  | amount => "Expected number after 'every'"
  | unit count => "Expected time unit after 'every " ++ count ++ "'"
  | closing of => "Expected 'end' to close '" ++ of.word ++ "' block"
  | command found => "Expected command or 'end', found '" ++ found ++ "'"
  | argumentList name => "Expected '(' after '" ++ name ++ "'"
  | separator => "Expected ',' or ')' in argument list"
  | argument => "Expected string or number argument"
  | number found => "Invalid number '" ++ found ++ "'"

end Missing

/-- A place in a script where it stops making sense, and why. -/
structure SyntaxError where
  line : Nat
  column : Nat
  missing : Missing
  deriving DecidableEq

namespace SyntaxError

def message (e : SyntaxError) : String := e.missing.message

def text (e : SyntaxError) : String :=
  "syntax error at line " ++ toString e.line ++ ", column " ++ toString e.column ++ ": "
    ++ e.message

end SyntaxError

/-- A parse that cannot go on: what is missing, and the token in its place unless none is left. -/
structure Stuck where
  missing : Missing
  token : Option Token

/-- The error of a stuck parse of the given tokens. -/
def Stuck.toError (stuck : Stuck) (tokens : List Token) : SyntaxError :=
  match stuck.token.or tokens.getLast? with
  | some token => ⟨token.line, token.column, stuck.missing⟩
  | none => ⟨1, 1, stuck.missing⟩

/-- Parsers return what they read and the tokens they leave. -/
abbrev Parser (α : Type) := List Token → Except Stuck (α × List Token)

namespace Parser

/-- Takes one token that passes a test. -/
def take (missing : Missing) (read? : Token → Option α) : Parser α
  | [] => .error ⟨missing, none⟩
  | token :: rest =>
    match read? token with
    | some a => .ok (a, rest)
    | none => .error ⟨missing, some token⟩

def keyword (word : String) (missing : Missing) : Parser Unit :=
  take missing fun token => if token.isKeyword word then some () else none

def symbol (text : String) (missing : Missing) : Parser Unit :=
  take missing fun token => if token.isSymbol text then some () else none

def eventName (after : Opener) : Parser String :=
  take (.eventName after) fun token =>
    if token.kind = .identifier then some token.value else none

/-- The comparison that a token stands for. -/
def comparison? (token : Token) : Option Comparison :=
  match token.kind with
  | .operator => Comparison.ofText? token.value
  | .keyword => if token.value = "contains" then some .contains else none
  | _ => none

def operand (after : Comparison) : Parser String :=
  take (.operand after) fun token =>
    if token.kind = .number ∨ token.kind = .string ∨ token.kind = .identifier then
      some token.value
    else none

/-- An optional comparison of the event with a value. -/
def condition (event : String) : Parser (Option Condition)
  | [] => .ok (none, [])
  | token :: rest =>
    match comparison? token with
    | none => .ok (none, token :: rest)
    | some operator => do
      let (right, rest) ← operand operator rest
      .ok (some ⟨event, operator, right⟩, rest)

/-- One argument; a number token must read as a number. -/
def argument (token : Token) : Except Stuck Argument :=
  match token.kind with
  | .string => .ok (.string token.value)
  | .number =>
    match Double.ofText? token.value with
    | some d => .ok (.number d)
    | none => .error ⟨.number token.value, some token⟩
  | _ => .error ⟨.argument, some token⟩

/-- A list of at least one argument, up to and with its closing parenthesis. -/
def argumentsFrom : Parser (List Argument)
  | [] => .error ⟨.argument, none⟩
  | token :: rest =>
    match argument token with
    | .error stuck => .error stuck
    | .ok first =>
      match rest with
      | [] => .error ⟨.separator, none⟩
      | mark :: rest =>
        if mark.isSymbol "," then
          match argumentsFrom rest with
          | .ok (more, rest) => .ok (first :: more, rest)
          | .error stuck => .error stuck
        else if mark.isSymbol ")" then .ok ([first], rest)
        else .error ⟨.separator, some mark⟩

/-- The arguments of a command, in parentheses. -/
def arguments (command : String) : Parser (List Argument) := fun tokens => do
  let ((), rest) ← symbol "(" (.argumentList command) tokens
  match rest with
  | [] => argumentsFrom []
  | token :: later => if token.isSymbol ")" then .ok ([], later) else argumentsFrom rest

theorem length_take {read? : Token → Option α} {missing : Missing} {tokens rest : List Token}
    {a : α} (h : take missing read? tokens = .ok (a, rest)) : rest.length < tokens.length := by
  cases tokens with
  | nil => simp [take] at h
  | cons token later =>
    simp only [take] at h
    split at h
    · cases h; simp
    · cases h

theorem length_argumentsFrom {tokens rest : List Token} {as : List Argument}
    (h : argumentsFrom tokens = .ok (as, rest)) : rest.length < tokens.length := by
  fun_induction argumentsFrom tokens generalizing as rest with
  | case1 => cases h
  | case2 => cases h
  | case3 => cases h
  | case4 _ _ _ _ _ _ _ _ he ih =>
    cases h
    have := ih he
    simp only [List.length_cons]
    omega
  | case5 => cases h
  | case6 => cases h; simp only [List.length_cons]; omega
  | case7 => cases h

theorem length_arguments {command : String} {tokens rest : List Token} {as : List Argument}
    (h : arguments command tokens = .ok (as, rest)) : rest.length < tokens.length := by
  simp only [arguments, bind, Except.bind] at h
  split at h
  · cases h
  · next r hs =>
    obtain ⟨⟨⟩, later⟩ := r
    have hl := length_take hs
    simp only at h
    split at h
    · simp [argumentsFrom] at h
    · split at h
      · cases h; simp only [List.length_cons] at hl; omega
      · have := length_argumentsFrom h
        omega

/-- The actions of a block, up to and with its closing keyword. -/
def actions (opener : Opener) (tokens : List Token) :
    Except Stuck (List Action × List Token) :=
  match tokens with
  | [] => .error ⟨.closing opener, none⟩
  | token :: rest =>
    if token.isKeyword "end" then .ok ([], rest)
    else if token.kind = .identifier then
      match _h : arguments token.value rest with
      | .error stuck => .error stuck
      | .ok (as, later) =>
        match actions opener later with
        | .ok (more, final) => .ok (⟨token.value, as⟩ :: more, final)
        | .error stuck => .error stuck
    else .error ⟨.command token.value, some token⟩
termination_by tokens.length
decreasing_by
  have := length_arguments _h
  simp only [List.length_cons]
  omega

/-- The trigger of a block, up to the keyword that starts its actions. -/
def trigger : Opener → Parser Trigger
  | .whenever => fun tokens => do
    let (event, rest) ← eventName .whenever tokens
    let (condition, rest) ← condition event rest
    let ((), rest) ← keyword "then" .consequence rest
    .ok (.event event condition, rest)
  | .on => fun tokens => do
    let (event, rest) ← eventName .on tokens
    let ((), rest) ← keyword "do" (.body .on) rest
    .ok (.event event none, rest)
  | .every => fun tokens => do
    let (amount, rest) ← take .amount (fun token =>
      if token.kind = .number then some token.value else none) tokens
    let (unit, rest) ← take (.unit amount) (fun token =>
      if token.kind = .keyword ∨ token.kind = .identifier then some token.value else none) rest
    let ((), rest) ← keyword "do" (.body .every) rest
    .ok (.schedule (amount ++ " " ++ unit), rest)

/-- A block after its opening keyword. -/
def blockBody (opener : Opener) : Parser Rule := fun tokens => do
  let (trigger, rest) ← trigger opener tokens
  let (actions, rest) ← actions opener rest
  .ok (⟨trigger, actions⟩, rest)

theorem length_keyword {word : String} {missing : Missing} {tokens rest : List Token} {u : Unit}
    (h : keyword word missing tokens = .ok (u, rest)) : rest.length < tokens.length :=
  length_take h

theorem length_condition {event : String} {tokens rest : List Token} {c : Option Condition}
    (h : condition event tokens = .ok (c, rest)) : rest.length ≤ tokens.length := by
  cases tokens with
  | nil => cases h; simp
  | cons token later =>
    simp only [condition] at h
    split at h
    · cases h; simp
    · simp only [bind, Except.bind] at h
      split at h
      · cases h
      · next r ho =>
        have := length_take ho
        cases h
        simp only [List.length_cons]
        omega

theorem length_trigger {opener : Opener} {tokens rest : List Token} {t : Trigger}
    (h : trigger opener tokens = .ok (t, rest)) : rest.length < tokens.length := by
  cases opener <;> simp only [trigger, bind, Except.bind] at h
  · split at h
    · cases h
    · next r he =>
      have := length_take he
      split at h
      · cases h
      · next r hc =>
        have := length_condition hc
        split at h
        · cases h
        · next r hk =>
          have := length_keyword hk
          cases h
          omega
  · split at h
    · cases h
    · next r he =>
      have := length_take he
      split at h
      · cases h
      · next r hk =>
        have := length_keyword hk
        cases h
        omega
  · split at h
    · cases h
    · next r ha =>
      have := length_take ha
      split at h
      · cases h
      · next r hu =>
        have := length_take hu
        split at h
        · cases h
        · next r hk =>
          have := length_keyword hk
          cases h
          omega

theorem length_actions {opener : Opener} {tokens rest : List Token} {as : List Action}
    (h : actions opener tokens = .ok (as, rest)) : rest.length < tokens.length := by
  fun_induction actions opener tokens generalizing as rest with
  | case1 => cases h
  | case2 => cases h; simp
  | case3 => cases h
  | case4 token rest _ _ _ _ ha _ _ hm ih =>
    cases h
    have := length_arguments ha
    have := ih hm
    simp only [List.length_cons]
    omega
  | case5 => cases h
  | case6 => cases h

/-- One rule block at the front of the tokens. -/
def block : Parser Rule
  | [] => .error ⟨.block, none⟩
  | token :: rest =>
    match Opener.ofToken? token with
    | some opener => blockBody opener rest
    | none => .error ⟨.opener token.value, some token⟩

theorem length_blockBody {opener : Opener} {tokens rest : List Token} {rule : Rule}
    (h : blockBody opener tokens = .ok (rule, rest)) : rest.length < tokens.length := by
  simp only [blockBody, bind, Except.bind] at h
  split at h
  · cases h
  · next r ht =>
    obtain ⟨trigger, later⟩ := r
    simp only at h
    split at h
    · cases h
    · next r ha =>
      obtain ⟨as, final⟩ := r
      cases h
      exact Nat.lt_trans (length_actions ha) (length_trigger ht)

/-- All rules, the tokens between the blocks passed over. -/
def rules (tokens : List Token) : Except Stuck (List Rule) :=
  match tokens with
  | [] => .ok []
  | token :: rest =>
    match Opener.ofToken? token with
    | none => rules rest
    | some opener =>
      match _h : blockBody opener rest with
      | .error stuck => .error stuck
      | .ok (rule, later) =>
        match rules later with
        | .ok more => .ok (rule :: more)
        | .error stuck => .error stuck
termination_by tokens.length
decreasing_by
  · simp
  · have := length_blockBody _h
    simp only [List.length_cons]
    omega

end Parser

/-- The program that a list of tokens says. -/
def Program.ofTokens (tokens : List Token) : Except SyntaxError Program :=
  match Parser.rules tokens with
  | .ok rules => .ok ⟨rules⟩
  | .error stuck => .error (stuck.toError tokens)

/-- The rule whose block starts at an index, and the index after the block. -/
def Rule.ofTokens (tokens : List Token) (start : Nat) : Except SyntaxError (Rule × Nat) :=
  match Parser.block (tokens.drop start) with
  | .ok (rule, rest) => .ok (rule, tokens.length - rest.length)
  | .error stuck => .error (stuck.toError tokens)

end Automation
