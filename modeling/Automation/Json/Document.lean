import Automation.Json.Literal
import Automation.Text.Hex

/-!
# JSON documents

A document is what a text says before anyone asks for values: members in the order of the text,
repeated keys included. A text that stops being JSON still yields the part before that place, so a
reader that works through a document in order meets its faults in the order of the text. Three
marks record the trouble: `broken` where no value can be read, an unclosed list or object where
the text breaks off inside, and `unusable` for text that is well formed but has no value, which
matters only to a reader who asks for it.
-/
namespace Automation

inductive Document where
  | null
  | bool (value : Bool)
  | int (value : Int)
  | real (value : Double)
  | string (value : String)
  | array (items : List Document) (closed : Bool)
  | object (members : List (String × Document)) (closed : Bool)
  | unusable
  | broken
  deriving Inhabited

namespace Document

/-- Containers may be nested one level less than this. -/
def nestingLimit : Nat := 128

/-- What was read, and the text after it unless the text broke off. -/
abbrev Reading := Document × Option (List Char)

def isSpace (c : Char) : Bool :=
  c == ' ' || c == '\n' || c == '\t' || c == '\r'

def skipSpace (chars : List Char) : List Char :=
  chars.dropWhile isSpace

/-- The characters behind one-letter escapes. -/
def simpleEscape? (c : Char) : Option Char :=
  if c == '"' || c == '\\' || c == '/' then some c
  else if c == 'b' then some '\x08'
  else if c == 'f' then some '\x0c'
  else if c == 'n' then some '\n'
  else if c == 'r' then some '\r'
  else if c == 't' then some '\t'
  else none

/-- A code unit escaped in a string; `high` is a leading surrogate that waits for its other half. -/
structure Pending where
  usable : Bool
  high : Option Nat

def Pending.close (p : Pending) : Pending :=
  ⟨p.usable && p.high.isNone, none⟩

/-- Adds an escaped code unit: a pair of surrogates is one character, an unpaired one has none. -/
def addUnit (pending : Pending) (acc : List Char) (unit : Nat) : Pending × List Char :=
  if 0xd800 ≤ unit && unit < 0xdc00 then (⟨pending.close.usable, some unit⟩, acc)
  else if 0xdc00 ≤ unit && unit < 0xe000 then
    match pending.high with
    | some high =>
      (⟨pending.usable, none⟩,
        Char.ofNat (0x10000 + (high - 0xd800) * 0x400 + (unit - 0xdc00)) :: acc)
    | none => (⟨false, none⟩, acc)
  else (pending.close, Char.ofNat unit :: acc)

/-- Reads a string after its opening quote: nothing if it breaks off, else its text, if it has
one, and what follows the closing quote. -/
def stringBody (pending : Pending) (acc : List Char) :
    List Char → Option (Option String × List Char)
  | [] => none
  | '"' :: rest =>
    some (if pending.close.usable then some (String.ofList acc.reverse) else none, rest)
  | '\\' :: 'u' :: a :: b :: c :: d :: rest =>
    match Text.hexNumber? [a, b, c, d] with
    | some unit =>
      let (pending, acc) := addUnit pending acc unit
      stringBody pending acc rest
    | none => none
  | '\\' :: c :: rest =>
    match simpleEscape? c with
    | some c => stringBody pending.close (c :: acc) rest
    | none => none
  | c :: rest =>
    if c.toNat < 0x20 || c == '\\' then none else stringBody pending.close (c :: acc) rest

def readString (chars : List Char) : Option (Option String × List Char) :=
  stringBody ⟨true, none⟩ [] chars

/-- A container at the given level: too deep a one has no value. -/
def atLevel (level : Nat) (container : Document) (rest : List Char) : Reading :=
  (if level < nestingLimit then container else unusable, some rest)

def literal (chars : List Char) : Reading :=
  match Json.Literal.read? chars with
  | none => (broken, none)
  | some (l, rest) =>
    match l.value? with
    | some (.int n) => (int n, some rest)
    | some (.real d) => (real d, some rest)
    | _ => (unusable, some rest)

mutual

/-- Reads one value. Every call consumes a character, so fuel above the length of the text is
never used up. -/
def value : (fuel : Nat) → (level : Nat) → List Char → Reading
  | 0, _, _ => (broken, none)
  | fuel + 1, level, chars =>
    match skipSpace chars with
    | 'n' :: 'u' :: 'l' :: 'l' :: rest => (null, some rest)
    | 't' :: 'r' :: 'u' :: 'e' :: rest => (bool true, some rest)
    | 'f' :: 'a' :: 'l' :: 's' :: 'e' :: rest => (bool false, some rest)
    | '"' :: rest =>
      match readString rest with
      | none => (broken, none)
      | some (some text, rest) => (string text, some rest)
      | some (none, rest) => (unusable, some rest)
    | '[' :: rest =>
      match skipSpace rest with
      | ']' :: rest => atLevel (level + 1) (array [] true) rest
      | rest => items fuel (level + 1) [] rest
    | '\x7b' :: rest =>
      match skipSpace rest with
      | '\x7d' :: rest => atLevel (level + 1) (object [] true) rest
      | rest => members fuel (level + 1) [] rest
    | c :: rest => if c == '-' || c.isDigit then literal (c :: rest) else (broken, none)
    | [] => (broken, none)

/-- Reads the items of a list, the first of them about to start. -/
def items : (fuel : Nat) → (level : Nat) → (done : List Document) → List Char → Reading
  | 0, _, done, _ => (array done.reverse false, none)
  | fuel + 1, level, done, chars =>
    match value fuel level chars with
    | (item, none) => (array (item :: done).reverse false, none)
    | (item, some rest) =>
      match skipSpace rest with
      | ',' :: rest => items fuel level (item :: done) rest
      | ']' :: rest => atLevel level (array (item :: done).reverse true) rest
      | _ => (array (item :: done).reverse false, none)

/-- Reads the members of an object, the first key about to start. -/
def members : (fuel : Nat) → (level : Nat) → (done : List (String × Document)) → List Char → Reading
  | 0, _, done, _ => (object done.reverse false, none)
  | fuel + 1, level, done, chars =>
    match skipSpace chars with
    | '"' :: rest =>
      match readString rest with
      | some (some key, rest) =>
        match skipSpace rest with
        | ':' :: rest =>
          match value fuel level rest with
          | (item, none) => (object ((key, item) :: done).reverse false, none)
          | (item, some rest) =>
            match skipSpace rest with
            | ',' :: rest => members fuel level ((key, item) :: done) rest
            | '\x7d' :: rest => atLevel level (object ((key, item) :: done).reverse true) rest
            | _ => (object ((key, item) :: done).reverse false, none)
        | _ => (object ((key, broken) :: done).reverse false, none)
      | _ => (object done.reverse false, none)
    | _ => (object done.reverse false, none)

end

/-- The value at the front of a text, whatever follows it. -/
def front (text : String) : Document :=
  (value (2 * text.length + 2) 0 text.toList).1

/-- The value a text consists of; text after the value makes the document broken. -/
def ofText (text : String) : Document :=
  match value (2 * text.length + 2) 0 text.toList with
  | (document, some rest) => if (skipSpace rest).isEmpty then document else broken
  | (document, none) => document

mutual

/-- The free-form value of a document: members sorted by key, the last of equal keys kept. -/
def toJson? : Document → Option Json
  | null => some .null
  | bool b => some (.bool b)
  | int n => some (.int n)
  | real d => some (.real d)
  | string s => some (.string s)
  | array items closed => if closed then (itemsToJson? items).map .array else none
  | object members closed => if closed then (membersToJson? members).map .ofMembers else none
  | unusable => none
  | broken => none

def itemsToJson? : List Document → Option (List Json)
  | [] => some []
  | item :: rest =>
    match toJson? item, itemsToJson? rest with
    | some value, some values => some (value :: values)
    | _, _ => none

def membersToJson? : List (String × Document) → Option (List (String × Json))
  | [] => some []
  | (key, item) :: rest =>
    match toJson? item, membersToJson? rest with
    | some value, some values => some ((key, value) :: values)
    | _, _ => none

end

end Document

namespace Json

mutual

/-- A value as the document that says it. -/
def toDocument : Json → Document
  | null => .null
  | bool b => .bool b
  | int n => .int n
  | real d => .real d
  | string s => .string s
  | array items => .array (itemsToDocument items) true
  | object members => .object (membersToDocument members) true

def itemsToDocument : List Json → List Document
  | [] => []
  | item :: rest => toDocument item :: itemsToDocument rest

def membersToDocument : List (String × Json) → List (String × Document)
  | [] => []
  | (key, item) :: rest => (key, toDocument item) :: membersToDocument rest

end

/-- The free-form value a text consists of. -/
def ofText? (text : String) : Option Json :=
  (Document.ofText text).toJson?

end Json
end Automation
