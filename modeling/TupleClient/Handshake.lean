import TupleClient.Frame
import TupleClient.Greeting
import TupleClient.Response
import TupleClient.Settings

/-!
The start of a connection: the server greets, the client proves that it knows a password, and the
server agrees. A handshake takes bytes as they come and says what to write.
-/
namespace TupleClient

namespace Handshake

def mechanism : String := "chap-sha1"

/-- What was reached, and the bytes that no step has used yet. -/
inductive Phase where
  | greeting
  | reply (g : Greeting)

/-- How a handshake ends. What came behind its last byte belongs to the connection. -/
inductive Result where
  | established (g : Greeting) (rest : Bytes)
  | failed (e : ClientError)

end Handshake

structure Handshake where
  credentials : Option Credentials
  maxFrame : Nat
  phase : Handshake.Phase
  input : Bytes

namespace Handshake

def start (credentials : Option Credentials) (maxFrame : Nat) : Handshake :=
  ⟨credentials, maxFrame, .greeting, []⟩

def authFrame (c : Credentials) (g : Greeting) : Except ClientError Bytes := do
  let request := Request.auth c.user mechanism (Greeting.proof g.salt c.password)
  let m ← request.message none
  match Frame.encode (m.withSync 0) with
  | .ok bytes => .ok bytes
  | .error e => .error (.codec e)

def judge (m : Message) : Except ClientError Unit :=
  match Response.ofMessage m (some .auth) with
  | .error e => .error (.connection e)
  | .ok (_, .error e) => .error (.handshake (.authFailed e.code e.message))
  | .ok (_, .ok _) => .ok ()

def receiveGreeting (bs : Bytes) : Option (Except HandshakeError Greeting × Bytes) :=
  (Bytes.split? greetingLength bs).map fun (raw, rest) => (Greeting.parse raw, rest)

def violation (e : Wire.CodecError) : ClientError := .connection (.violation e.message)

def readReply (h : Handshake) (g : Greeting) : Handshake ⊕ Result :=
  match Frame.receive h.maxFrame h.input with
  | .incomplete => .inl { h with phase := .reply g }
  | .malformed e _ => .inr (.failed (violation e))
  | .message m rest =>
    match judge m with
    | .ok () => .inr (.established g rest)
    | .error e => .inr (.failed e)

/-- Goes on as far as the input allows. The bytes are to be written. -/
def advance (h : Handshake) : Bytes × (Handshake ⊕ Result) :=
  match h.phase with
  | .reply g => ([], h.readReply g)
  | .greeting =>
    match receiveGreeting h.input with
    | none => ([], .inl h)
    | some (.error e, _) => ([], .inr (.failed (.handshake e)))
    | some (.ok g, rest) =>
      match h.credentials with
      | none => ([], .inr (.established g rest))
      | some c =>
        match authFrame c g with
        | .error e => ([], .inr (.failed e))
        | .ok bytes => (bytes, { h with input := rest }.readReply g)

def receive (h : Handshake) (bs : Bytes) : Bytes × (Handshake ⊕ Result) :=
  { h with input := h.input ++ bs }.advance

def hungUp (_h : Handshake) : Result := .failed .endOfInput

def timedOut (_h : Handshake) : Result :=
  .failed (.connection (.io "Resource temporarily unavailable (os error 11)"))

end Handshake
end TupleClient
