import Automation.Dict
import Automation.Json.Document
import Automation.Time.Instant
import Automation.Uuid

/-!
# Reading typed values from documents

A decoder turns a document into a value of a type or tells why it cannot: the text is malformed, or
it is sound JSON of another shape. Decoders work in the order of the text, so the earlier of two
faults is reported. Records are described by `Fields`: unknown members are passed over, a repeated
known member is refused, and a list is accepted in place of an object if it gives the fields in
their declared order.
-/
namespace Automation

/-- Why a document is no value of a type. -/
inductive Fault where
  | malformed
  | mismatch
  deriving DecidableEq

def Fault.message : Fault → String
  | malformed => "the text is not JSON"
  | mismatch => "the JSON says something else"

abbrev Decoder (α : Type) := Document → Except Fault α

namespace Decoder

/-- The fault of a document that has the wrong shape, or no shape at all. -/
def refuse (document : Document) : Except Fault α :=
  match document with
  | .broken => .error .malformed
  | .unusable => .error .malformed
  | _ => .error .mismatch

/-- A value that must exist. -/
def expect (found : Option α) : Except Fault α :=
  match found with
  | some a => .ok a
  | none => .error .mismatch

/-- What follows the content of a container must be its end. -/
def closing (closed : Bool) (a : α) : Except Fault α :=
  if closed then .ok a else .error .malformed

def string : Decoder String
  | .string s => .ok s
  | document => refuse document

def bool : Decoder Bool
  | .bool b => .ok b
  | document => refuse document

/-- An integer from 0 up to 2⁶⁴ - 1. -/
def natural : Decoder Nat
  | .int n => if 0 ≤ n && n.toNat < Nat.pow 2 64 then .ok n.toNat else .error .mismatch
  | document => refuse document

def double : Decoder Double
  | .int n => .ok (Double.ofInt n)
  | .real d => .ok d
  | document => refuse document

/-- Any value at all. -/
def json : Decoder Json := fun document =>
  match document.toJson? with
  | some value => .ok value
  | none => .error .malformed

def uuid : Decoder Uuid := fun document => do
  expect (Uuid.ofText? (← string document))

def instant : Decoder Instant := fun document => do
  expect (Instant.ofText? (← string document))

/-- A value or null. -/
def option (decode : Decoder α) : Decoder (Option α)
  | .null => .ok none
  | document => (decode document).map some

def list (decode : Decoder α) : Decoder (List α)
  | .array items closed => do closing closed (← items.mapM decode)
  | document => refuse document

/-- An object with keys of some type; the last of equal keys wins. -/
def dictOf [DecidableEq κ] (key? : String → Option κ) (decode : Decoder α) : Decoder (Dict κ α)
  | .object members closed => do
    let entries ← members.mapM fun (name, document) => do
      let key ← expect (key? name)
      let value ← decode document
      .ok (key, value)
    closing closed (Dict.ofList entries)
  | document => refuse document

def dict (decode : Decoder α) : Decoder (Dict String α) := dictOf some decode

/-- One of several names, alone or as the key of an object with the single value null. -/
def choice (options : List (String × α)) : Decoder α
  | .string name => pick name
  | .object [(name, document)] closed => do
    let a ← pick name
    match document with
    | .null => closing closed a
    | document => refuse document
  | .object members false => if members.isEmpty then .error .malformed else .error .mismatch
  | document => refuse document
where
  pick (name : String) : Except Fault α :=
    expect ((options.find? fun o => o.1 == name).map Prod.snd)

end Decoder

/-- What is known of a field before its record is built. -/
structure FieldRule where
  name : String
  check : Document → Except Fault Unit
  /-- A list that is given in place of the record may end before this field. -/
  hasDefault : Bool

/-- The fields of a record: their rules in declared order, and how the record is made of the
documents found under their names. -/
structure Fields (α : Type) where
  rules : List FieldRule
  build : (String → Option Document) → Except Fault α

namespace Fields

instance : Applicative Fields where
  pure a := ⟨[], fun _ => .ok a⟩
  seq f x :=
    ⟨f.rules ++ (x ()).rules, fun find => do
      let g ← f.build find
      let a ← (x ()).build find
      .ok (g a)⟩

def one (name : String) (hasDefault : Bool) (absent : Except Fault α) (decode : Decoder α) :
    Fields α where
  rules := [⟨name, fun document => (decode document).map fun _ => (), hasDefault⟩]
  build find :=
    match find name with
    | some document => decode document
    | none => absent

def required (name : String) (decode : Decoder α) : Fields α :=
  one name false (.error .mismatch) decode

def withDefault (name : String) (default : α) (decode : Decoder α) : Fields α :=
  one name true (.ok default) decode

/-- A field that may be missing or null. -/
def optional (name : String) (decode : Decoder α) : Fields (Option α) :=
  one name false (.ok none) (Decoder.option decode)

/-- A field that may be missing or null, in a list too. -/
def optionalLast (name : String) (decode : Decoder α) : Fields (Option α) :=
  one name true (.ok none) (Decoder.option decode)

/-- Checks the known members in the order of the text and keeps them. -/
def keepKnown (rules : List FieldRule) (kept : List (String × Document)) :
    List (String × Document) → Except Fault (List (String × Document))
  | [] => .ok kept
  | (name, document) :: rest =>
    match rules.find? fun rule => rule.name == name with
    | none => keepKnown rules kept rest
    | some rule =>
      if kept.any fun member => member.1 == name then .error .mismatch
      else do
        rule.check document
        keepKnown rules ((name, document) :: kept) rest

/-- Gives the items of a list the names of the fields. -/
def nameItems (closed : Bool) :
    List FieldRule → List Document → Except Fault (List (String × Document))
  | [], [] => Decoder.closing closed []
  | [], _ :: _ => .error .malformed
  | rules, [] =>
    if !closed then .error .malformed
    else if rules.all FieldRule.hasDefault then .ok []
    else .error .mismatch
  | rule :: rules, document :: rest => do
    rule.check document
    let named ← nameItems closed rules rest
    .ok ((rule.name, document) :: named)

def find (members : List (String × Document)) (name : String) : Option Document :=
  (members.find? fun member => member.1 == name).map Prod.snd

def decoder (fields : Fields α) : Decoder α
  | .object members closed => do
    let kept ← keepKnown fields.rules [] members
    let kept ← Decoder.closing closed kept
    fields.build (find kept)
  | .array items closed => do
    fields.build (find (← nameItems closed fields.rules items))
  | document => Decoder.refuse document

end Fields
end Automation
