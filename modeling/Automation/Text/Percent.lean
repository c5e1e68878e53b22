import Automation.Text.Hex
import Automation.Text.Split

/-!
# Percent encoding

In an address a byte is written as a percent sign and two hexadecimal digits. A percent sign that
is followed by anything else stands for itself.
-/
namespace Automation.Text

/-- The bytes that a text with escapes stands for. -/
def unescapeBytes : List UInt8 → List UInt8
  | a :: b :: c :: rest =>
    match if a = 37 then hexNumber? [Char.ofNat b.toNat, Char.ofNat c.toNat] else none with
    | some n => n.toUInt8 :: unescapeBytes rest
    | none => a :: unescapeBytes (b :: c :: rest)
  | bytes => bytes

/-- The text without escapes, unless its bytes are no text. -/
def percentDecoded? (text : String) : Option String :=
  String.fromUTF8? ⟨(unescapeBytes text.toUTF8.toList).toArray⟩

/-- How many bytes at the front make a character. -/
def frontLength (bytes : List UInt8) : Option Nat :=
  [1, 2, 3, 4].find? fun count =>
    count ≤ bytes.length && (String.fromUTF8? ⟨(bytes.take count).toArray⟩).isSome

/-- The text that bytes make, with a replacement character for every byte that fits nowhere. The
fuel is the number of bytes. -/
def lossy : (fuel : Nat) → List UInt8 → String
  | 0, _ => ""
  | _, [] => ""
  | fuel + 1, byte :: rest =>
    match frontLength (byte :: rest) with
    | some count =>
      ((String.fromUTF8? ⟨((byte :: rest).take count).toArray⟩).getD "")
        ++ lossy fuel ((byte :: rest).drop count)
    | none => "\ufffd" ++ lossy fuel rest

/-- A key or a value of a query, where a plus sign stands for a space. -/
def formDecoded (text : String) : String :=
  let bytes := (text.map fun c => if c == '+' then ' ' else c).toUTF8.toList
  let plain := unescapeBytes bytes
  lossy plain.length plain

/-- The keys and values of a query. -/
def queryPairs (query : String) : List (String × String) :=
  ((splitAt '&' query).filter fun piece => !piece.isEmpty).map fun piece =>
    let key := piece.toList.takeWhile (· != '=')
    (formDecoded (String.ofList key),
      formDecoded (String.ofList (piece.toList.drop (key.length + 1))))

end Automation.Text
