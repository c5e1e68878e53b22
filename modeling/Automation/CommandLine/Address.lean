import Automation.Number.Reading
import Automation.Text.Split

/-!
# Addresses to listen on

An address is a host and a port with a colon between them; the last colon counts.
-/
namespace Automation.CommandLine

/-- Why nobody can listen on an address. -/
inductive AddressError where
  | noAddress
  | noPort
  | unknownHost
  /-- The host is another machine. -/
  | elsewhere
  | noListener
  deriving DecidableEq

def AddressError.message : AddressError → String
  | noAddress => "invalid socket address"
  | noPort => "invalid port value"
  | unknownHost => "failed to lookup address information: Name or service not known"
  | elsewhere => "Cannot assign requested address (os error 99)"
  | noListener => "listening on a socket is not supported"

namespace Address

/-- A number of digits only, with an optional plus sign, below a limit. -/
def number? (limit : Nat) (text : String) : Option Nat :=
  let digits :=
    match text.toList with
    | '+' :: rest => rest
    | chars => chars
  let value := Double.digitsValue digits
  if !digits.isEmpty && digits.all Char.isDigit && value < limit then some value else none

def isPort (text : String) : Bool := (number? 65536 text).isSome

/-- The four bytes of a host given by number. -/
def bytes? (host : String) : Option (List Nat) :=
  match (Text.splitAt '.' host).mapM (number? 256) with
  | some bytes => if bytes.length = 4 && !host.contains '+' then some bytes else none
  | none => none

/-- Whether a host given by number is this machine. -/
def isOwn (bytes : List Nat) : Bool := bytes = [0, 0, 0, 0] || bytes.head? = some 127

/-- Why one cannot listen on an address; there is always a reason. -/
def refusal (address : String) : AddressError :=
  match Text.cutAtLast? ':' address with
  | none => .noAddress
  | some (host, port) =>
    if !isPort port then .noPort
    else
      match bytes? host with
      | some bytes => if isOwn bytes then .noListener else .elsewhere
      | none => if ["localhost", "[::1]", "[::]"].contains host then .noListener else .unknownHost

end Address
end Automation.CommandLine
