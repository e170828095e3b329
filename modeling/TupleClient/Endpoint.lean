import TupleClient.Decimal.Reading

/-!
Addresses of servers: a host and a port with a colon between them.
-/
namespace TupleClient

structure Endpoint where
  host : String
  port : Nat
deriving DecidableEq

namespace Endpoint

def splitLastColon (cs : List Char) : Option (List Char × List Char) :=
  match cs.reverse.dropWhile (· != ':') with
  | [] => none
  | _ :: host => some (host.reverse, (cs.reverse.takeWhile (· != ':')).reverse)

/-- A port is a number of 16 bits, a plus in front is allowed. -/
def port? (cs : List Char) : Option Nat :=
  match Decimal.splitSign cs with
  | (true, _) => none
  | (false, digits) =>
    match Decimal.natural? digits with
    | some n => if n < 65536 then some n else none
    | none => none

/-- Brackets around a host that has colons itself do not belong to it. -/
def unbracket (cs : List Char) : List Char :=
  match cs, cs.getLast? with
  | '[' :: rest, some ']' => rest.dropLast
  | _, _ => cs

def parse (address : String) : Except String Endpoint :=
  match splitLastColon address.toList with
  | none => .error "invalid socket address"
  | some (host, port) =>
    match port? port with
    | none => .error "invalid port value"
    | some n => .ok ⟨String.ofList (unbracket host), n⟩

end Endpoint

/-- The text for an error number of the operating system, as far as sockets give it. -/
def systemErrorName (code : Nat) : String :=
  match code with
  | 11 => "Resource temporarily unavailable"
  | 13 => "Permission denied"
  | 32 => "Broken pipe"
  | 101 => "Network is unreachable"
  | 103 => "Software caused connection abort"
  | 104 => "Connection reset by peer"
  | 110 => "Connection timed out"
  | 111 => "Connection refused"
  | 113 => "No route to host"
  | _ => "Unknown error"

def systemErrorText (code : Nat) : String := s!"{systemErrorName code} (os error {code})"

end TupleClient
