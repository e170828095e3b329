import TupleClient.Addresses
import TupleClient.Response

/-!
The members of a cluster: asked for again and again, and followed.
-/
namespace TupleClient.Membership

open Wire

def insertInto (member : String) : List String → List String
  | [] => [member]
  | x :: xs =>
    if member < x then member :: x :: xs
    else if member = x then x :: xs
    else x :: insertInto member xs

def sorted (members : List String) : List String := members.foldr insertInto []

def request (function : String) : Request := .call function []

def texts : List Value → Except CodecError (List String)
  | [] => .ok []
  | .text s :: vs => do
    let more ← texts vs
    .ok (s :: more)
  | v :: _ => .error (.unexpected "host:port string" v.display)

/-- The members in an answer, which gives them as a list or as a list in a list. -/
def ofAnswer (answer : Except ClientError Response) : Except ClientError (List String) :=
  match answer with
  | .error e => .error e
  | .ok response =>
    let members : Except CodecError (List String) := do
      match ← response.tuples with
      | [.array inner] => texts inner
      | list => texts list
    match members with
    | .ok list => .ok (sorted list)
    | .error e => .error (.codec e)

/-- What a poll leads to: the members that are known now, the addresses, and whether the connection
has to be given up. -/
structure Verdict where
  known : Option (List String)
  addresses : Addresses
  leave : Bool

/-- A poll. Nothing happens if it fails or gives the members that are known already. The connection
is left if its server is gone and nothing is under way. -/
def poll (known : Option (List String)) (addresses : Addresses) (attached : Option String)
    (pending : Nat) (answer : Except ClientError (List String)) : Verdict :=
  match answer with
  | .error _ => ⟨known, addresses, false⟩
  | .ok members =>
    if known = some members then ⟨known, addresses, false⟩
    else
      let gone :=
        match attached with
        | some address => !members.contains address
        | none => false
      ⟨some members, addresses.refresh members, gone && pending == 0⟩

end TupleClient.Membership
