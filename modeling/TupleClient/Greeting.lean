import TupleClient.Digest.Sha1
import TupleClient.Error
import TupleClient.Text.Base64
import TupleClient.Text.Blank
import TupleClient.Text.Utf8

/-!
The greeting of a server: two lines of 64 bytes. The first names the product and its version, the
second holds the salt from which the proof of a password is made.
-/
namespace TupleClient

structure Greeting where
  banner : String
  version : Option String
  salt : Bytes

namespace Greeting

def lineLength : Nat := 64

def product : String := "Tarantool"

def saltTextLength : Nat := 44

/-- The bytes of the salt that enter the proof, and the length of the proof. -/
def proofLength : Nat := 20

def versionOf (banner : List Char) : Option String :=
  let rest := Text.trimStart (Text.splitWord (Text.trimStart banner)).2
  match (Text.splitWord rest).1 with
  | [] => none
  | word => some (String.ofList word)

/-- Blanks around the text of the salt do not count. -/
def saltOf (field : Bytes) : Except String Bytes :=
  match Bytes.toText? field with
  | none => .error (((Utf8.fault? field).map Utf8.Fault.message).getD "")
  | some text =>
    match Base64.decode (Bytes.ofText (String.ofList (Text.trim text.toList))) with
    | .error e => .error e.message
    | .ok salt =>
      if salt.length < proofLength then .error s!"decoded salt is {salt.length} bytes"
      else .ok salt

/-- Reads a greeting. Bytes of the first line that are no UTF-8 are replaced. -/
def parse (raw : Bytes) : Except HandshakeError Greeting :=
  if raw.length < greetingLength then .error (.shortGreeting raw.length)
  else
    let banner := Text.trimEnd (Utf8.lossy (raw.take lineLength))
    if product.toList.isPrefixOf banner then
      match saltOf ((raw.drop lineLength).take saltTextLength) with
      | .ok salt => .ok ⟨String.ofList banner, versionOf banner, salt⟩
      | .error reason => .error (.invalidSalt reason)
    else .error (.unknownProduct (String.ofList banner))

/-- The proof that one knows a password: its digest, hidden behind a digest that only somebody who
knows the salt and the digest of the digest can compute. -/
def proof (salt : Bytes) (password : String) : Bytes :=
  let once := Digest.Sha1.digest (Bytes.ofText password)
  let twice := Digest.Sha1.digest once
  once.zipWith (· ^^^ ·) (Digest.Sha1.digest (salt.take proofLength ++ twice))

end Greeting
end TupleClient
