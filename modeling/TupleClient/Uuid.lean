import TupleClient.Bytes

/-!
Universally unique identifiers: sixteen bytes, written as 8-4-4-4-12 digits in base 16.
-/
namespace TupleClient

structure Uuid where
  bytes : Bytes
  length_eq : bytes.length = 16

namespace Uuid

def ofBytes? (bs : Bytes) : Option Uuid :=
  if h : bs.length = 16 then some ⟨bs, h⟩ else none

/-- Groups of four, two, two, two and six bytes, hyphens between them, digits in lower case. -/
def chars (u : Uuid) : List Char :=
  let hex (bs : Bytes) := bs.flatMap Bytes.hexByte
  hex (u.bytes.take 4) ++ '-' :: hex ((u.bytes.drop 4).take 2) ++
    '-' :: hex ((u.bytes.drop 6).take 2) ++ '-' :: hex ((u.bytes.drop 8).take 2) ++
    '-' :: hex (u.bytes.drop 10)

def text (u : Uuid) : String := String.ofList u.chars

def ofChars? (cs : List Char) : Option Uuid :=
  match (cs.drop 8).take 1, (cs.drop 13).take 1, (cs.drop 18).take 1, (cs.drop 23).take 1 with
  | ['-'], ['-'], ['-'], ['-'] =>
    match Bytes.ofHex? (cs.take 8 ++ (cs.drop 9).take 4 ++ (cs.drop 14).take 4 ++
      (cs.drop 19).take 4 ++ cs.drop 24) with
    | some bs => ofBytes? bs
    | none => none
  | _, _, _, _ => none

end Uuid
end TupleClient
