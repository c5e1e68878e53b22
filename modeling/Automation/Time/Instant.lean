import Automation.Text.Blank
import Automation.Time.Calendar

/-!
# Instants

A point in time, in seconds and nanoseconds from the start of 1970. A leap second repeats the second
before it with a thousand million nanoseconds more. Instants are printed as date and time in UTC
with as few groups of three fraction digits as lose nothing. They are read with any offset from
UTC, with one or two digits to a field, blanks between the fields, and a `T` or a blank between
date and time.
-/
namespace Automation

structure Instant where
  seconds : Int
  nanos : Nat
  deriving DecidableEq, Inhabited

namespace Instant

def le (a b : Instant) : Bool :=
  a.seconds < b.seconds || (a.seconds == b.seconds && a.nanos ≤ b.nanos)

/-- A number with at least `width` digits. -/
def padded (width : Nat) (n : Nat) : List Char :=
  let digits := n.repr.toList
  List.replicate (width - digits.length) '0' ++ digits

private def yearText (year : Int) : List Char :=
  if 0 ≤ year && year ≤ 9999 then padded 4 year.toNat
  else (if year < 0 then '-' else '+') :: padded 4 year.natAbs

private def fractionText (nanos : Nat) : List Char :=
  if nanos = 0 then []
  else if nanos % 1000000 = 0 then '.' :: padded 3 (nanos / 1000000)
  else if nanos % 1000 = 0 then '.' :: padded 6 (nanos / 1000)
  else '.' :: padded 9 nanos

def chars (t : Instant) : List Char :=
  let date := Date.ofDays (t.seconds / 86400)
  let second := (t.seconds % 86400).toNat
  let isLeap := 1000000000 ≤ t.nanos
  yearText date.year ++ '-' :: padded 2 date.month ++ '-' :: padded 2 date.day
    ++ 'T' :: padded 2 (second / 3600) ++ ':' :: padded 2 (second / 60 % 60)
    ++ ':' :: padded 2 (second % 60 + if isLeap then 1 else 0)
    ++ fractionText (if isLeap then t.nanos - 1000000000 else t.nanos) ++ ['Z']

def text (t : Instant) : String := String.ofList t.chars

private def dropBlanks (chars : List Char) : List Char := chars.dropWhile Text.isBlank

private def value (digits : List Char) : Nat :=
  digits.foldl (fun n c => n * 10 + (c.toNat - 48)) 0

/-- Up to `width` digits, and at least one. -/
private def number? (width : Nat) (chars : List Char) : Option (Nat × List Char) :=
  let digits := (chars.take width).takeWhile Char.isDigit
  if digits.isEmpty then none else some (value digits, chars.drop digits.length)

private def field? (chars : List Char) : Option (Nat × List Char) :=
  number? 2 (dropBlanks chars)

private def year? (chars : List Char) : Option (Int × List Char) :=
  match dropBlanks chars with
  | '-' :: rest => (number? rest.length rest).map fun (n, rest) => (-(n : Int), rest)
  | '+' :: rest => (number? rest.length rest).map fun (n, rest) => ((n : Int), rest)
  | rest => (number? 4 rest).map fun (n, rest) => ((n : Int), rest)

private def mark? (mark : Char) (chars : List Char) : Option (List Char) :=
  match dropBlanks chars with
  | c :: rest => if c == mark then some rest else none
  | [] => none

private def date? (chars : List Char) : Option (Date × List Char) := do
  let (year, rest) ← year? chars
  let rest ← mark? '-' rest
  let (month, rest) ← field? rest
  let rest ← mark? '-' rest
  let (day, rest) ← field? rest
  some (⟨year, month, day⟩, rest)

/-- Fraction digits after a point; those beyond the ninth are dropped. -/
private def fraction? : List Char → Option (Nat × List Char)
  | '.' :: rest =>
    let digits := rest.takeWhile Char.isDigit
    if digits.isEmpty then none
    else
      let kept := digits.take 9
      some (value kept * Nat.pow 10 (9 - kept.length), rest.dropWhile Char.isDigit)
  | rest => some (0, rest)

private def twoDigits? : List Char → Option (Nat × List Char)
  | a :: b :: rest =>
    if a.isDigit && b.isDigit then some (value [a, b], rest) else none
  | _ => none

private def signedOffset? (sign : Int) (chars : List Char) : Option (Int × List Char) := do
  let (hours, rest) ← twoDigits? chars
  let (minutes, rest) ← twoDigits? (rest.dropWhile fun c => c == ':' || Text.isBlank c)
  if minutes < 60 && hours < 24 then
    some (sign * (hours * 3600 + minutes * 60 : Nat), rest)
  else none

/-- The seconds by which a written time is ahead of UTC. -/
private def offset? : List Char → Option (Int × List Char)
  | 'Z' :: rest => some (0, rest)
  | 'z' :: rest => some (0, rest)
  | '+' :: rest => signedOffset? 1 rest
  | '-' :: rest => signedOffset? (-1) rest
  | '\u2212' :: rest => signedOffset? (-1) rest
  | a :: b :: c :: rest =>
    if [a, b, c].map Char.toLower == ['u', 't', 'c'] then some (0, rest) else none
  | _ => none

private def inRange (seconds : Int) : Bool :=
  let year := (Date.ofDays (seconds / 86400)).year
  Date.firstYear ≤ year && year ≤ Date.lastYear

def ofChars? (chars : List Char) : Option Instant := do
  let (date, rest) ← date? chars
  let rest ←
    match rest with
    | c :: rest => if c == 'T' || c == 't' || c == ' ' then some rest else none
    | [] => none
  let (hour, rest) ← field? rest
  let rest ← mark? ':' rest
  let (minute, rest) ← field? rest
  let rest ← mark? ':' rest
  let (second, rest) ← field? rest
  let (nanos, rest) ← fraction? rest
  let (offset, rest) ← offset? (dropBlanks rest)
  let isLeap := second == 60
  let second := if isLeap then 59 else second
  if date.isValid && hour < 24 && minute < 60 && second < 60 && (dropBlanks rest).isEmpty then
    let seconds := date.toDays * 86400 + (hour * 3600 + minute * 60 + second : Nat) - offset
    if inRange seconds then some ⟨seconds, if isLeap then nanos + 1000000000 else nanos⟩ else none
  else none

def ofText? (text : String) : Option Instant := ofChars? text.toList

end Instant
end Automation
