import TupleClient.Fields

/-!
Messages: what client and server say to each other.
-/
namespace TupleClient

structure Message where
  header : Fields
  body : Fields

namespace Message

def codeKey : UInt8 := 0x00

def syncKey : UInt8 := 0x01

def schemaVersionKey : UInt8 := 0x05

def nat64? (f : Fields) (key : UInt8) : Option Nat := (f.get? key).bind Value.nat64?

/-- The request type, or in a reply the status. -/
def code? (m : Message) : Option Nat := (m.header.get? codeKey).bind Value.nat32?

def sync? (m : Message) : Option Nat := nat64? m.header syncKey

def schemaVersion? (m : Message) : Option Nat := nat64? m.header schemaVersionKey

def withHeader (m : Message) (key : UInt8) (v : Value) : Message :=
  { m with header := m.header.insert key v }

def withSync (m : Message) (sync : Nat) : Message := m.withHeader syncKey (.ofNat sync)

end Message
end TupleClient
