import Automation.Number.Double

/-!
# JSON values

Integers and doubles are kept apart, as the text keeps them apart. The members of an object are a
list in printing order. A free-form value keeps its members sorted by key with no key twice, which
is what `insertMember` maintains; the records of this project print their fields in the order of
their declaration.
-/
namespace Automation

inductive Json where
  | null
  | bool (value : Bool)
  | int (value : Int)
  | real (value : Double)
  | string (value : String)
  | array (items : List Json)
  | object (members : List (String × Json))
  deriving Inhabited

namespace Json

def isNull : Json → Bool
  | null => true
  | _ => false

/-- A double as a value; what is not finite has no JSON form and becomes null. -/
def ofDouble (d : Double) : Json :=
  if d.isFinite then real d else null

def ofNat (n : Nat) : Json := int n

def ofOption (encode : α → Json) : Option α → Json
  | some a => encode a
  | none => null

/-- Sets a member of a sorted list of members. -/
def insertMember (key : String) (value : Json) : List (String × Json) → List (String × Json)
  | [] => [(key, value)]
  | (k, v) :: rest =>
    if key < k then (key, value) :: (k, v) :: rest
    else if key = k then (key, value) :: rest
    else (k, v) :: insertMember key value rest

/-- Members in any order become a sorted object; the last of several with one key wins. -/
def ofMembers (members : List (String × Json)) : Json :=
  object (members.foldl (fun sorted m => insertMember m.1 m.2 sorted) [])

mutual

/-- The value with the members of every object sorted; the last of several with one key wins. -/
def sorted : Json → Json
  | array items => array (sortedItems items)
  | object members => ofMembers (sortedMembers members)
  | value => value

def sortedItems : List Json → List Json
  | [] => []
  | value :: rest => sorted value :: sortedItems rest

def sortedMembers : List (String × Json) → List (String × Json)
  | [] => []
  | (key, value) :: rest => (key, sorted value) :: sortedMembers rest

end

def lookup (key : String) (members : List (String × Json)) : Option Json :=
  (members.find? fun m => m.1 == key).map Prod.snd

/-- A member of an object; other values have none. -/
def field? (value : Json) (key : String) : Option Json :=
  match value with
  | object members => lookup key members
  | _ => none

def text? : Json → Option String
  | string s => some s
  | _ => none

/-- The members of a record, with those left out that are absent. -/
def record (members : List (String × Option Json)) : Json :=
  object (members.filterMap fun m => m.2.map fun value => (m.1, value))

end Json
end Automation
