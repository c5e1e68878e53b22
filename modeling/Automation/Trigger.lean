import Automation.Dict
import Automation.Number.Reading

/-!
# Triggers

What makes a rule or a workflow run: an event, perhaps under a condition on its context, a schedule
named by its expression, or a user. A condition compares the value of a context entry with a fixed
text, as numbers if both can be read as numbers and as texts otherwise.
-/
namespace Automation

/-- What a run is told about its occasion. -/
abbrev Context := Dict String String

inductive Comparison where
  | greater
  | less
  | greaterOrEqual
  | lessOrEqual
  | equal
  | different
  | contains
  deriving DecidableEq, Inhabited

namespace Comparison

def text : Comparison → String
  | greater => ">"
  | less => "<"
  | greaterOrEqual => ">="
  | lessOrEqual => "<="
  | equal => "=="
  | different => "!="
  | contains => "contains"

def all : List Comparison :=
  [greater, less, greaterOrEqual, lessOrEqual, equal, different, contains]

def ofText? (text : String) : Option Comparison :=
  all.find? fun comparison => comparison.text == text

/-- Compares numbers. Only `different` holds of not-a-number. -/
def ofDoubles (comparison : Comparison) (a b : Double) : Bool :=
  match comparison with
  | greater => b.lt a
  | less => a.lt b
  | greaterOrEqual => b.le a
  | lessOrEqual => a.le b
  | equal => a.equals b
  | different => !a.equals b
  | contains => false

/-- Compares texts by their characters. -/
def ofTexts (comparison : Comparison) (a b : String) : Bool :=
  match comparison with
  | greater => b < a
  | less => a < b
  | greaterOrEqual => !(a < b)
  | lessOrEqual => !(b < a)
  | equal => a == b
  | different => a != b
  | contains => false

end Comparison

namespace Text

/-- Whether one list of characters occurs inside another. -/
def occursIn (part : List Char) : List Char → Bool
  | [] => part.isEmpty
  | c :: rest => part.isPrefixOf (c :: rest) || occursIn part rest

end Text

structure Condition where
  left : String
  operator : Comparison
  right : String
  deriving DecidableEq, Inhabited

namespace Condition

/-- The entry of the context that the condition speaks of: the one it names, or else the one
called `value`. -/
def operand? (condition : Condition) (context : Context) : Option String :=
  (context.get? condition.left).or (context.get? "value")

/-- Whether the condition holds of a text. -/
def holdsOf (condition : Condition) (actual : String) : Bool :=
  if condition.operator = .contains then Text.occursIn condition.right.toList actual.toList
  else
    match Double.ofTrimmed? actual, Double.ofTrimmed? condition.right with
    | some a, some b => condition.operator.ofDoubles a b
    | _, _ => condition.operator.ofTexts actual condition.right

/-- A condition on a missing entry does not hold. -/
def holds (condition : Condition) (context : Context) : Bool :=
  match condition.operand? context with
  | some actual => condition.holdsOf actual
  | none => false

end Condition

inductive Trigger where
  | event (name : String) (condition : Option Condition)
  | schedule (expression : String)
  | manual
  deriving DecidableEq, Inhabited

namespace Trigger

def eventName? : Trigger → Option String
  | event name _ => some name
  | _ => none

def scheduleExpression? : Trigger → Option String
  | schedule expression => some expression
  | _ => none

/-- Whether an event of the given name and context sets the trigger off. -/
def matchesEvent (trigger : Trigger) (name : String) (context : Context) : Bool :=
  match trigger with
  | event expected condition =>
    expected == name && (condition.map fun c => c.holds context).getD true
  | _ => false

def matchesSchedule (trigger : Trigger) (expression : String) : Bool :=
  trigger.scheduleExpression? == some expression

end Trigger
end Automation
