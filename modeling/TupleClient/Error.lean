import TupleClient.Text.Quoted
import TupleClient.Wire.Error

/-!
The ways in which an operation fails.
-/
namespace TupleClient

open Wire

inductive HandshakeError where
  | unknownProduct (banner : String)
  | shortGreeting (length : Nat)
  | invalidSalt (reason : String)
  | authFailed (code : Nat) (message : String)
deriving DecidableEq

def greetingLength : Nat := 128

def HandshakeError.message : HandshakeError → String
  | .unknownProduct banner => s!"unknown product in greeting: {Text.quoted banner}"
  | .shortGreeting length => s!"greeting is {length} bytes, expected {greetingLength}"
  | .invalidSalt reason => s!"invalid salt: {reason}"
  | .authFailed code message => s!"authentication failed: [{code}] {message}"

inductive ConnectionError where
  | io (reason : String)
  | closed (reason : String)
  | exhausted (attempts : Nat) (last : String)
  | violation (reason : String)
  | notConnected
deriving DecidableEq

def ConnectionError.message : ConnectionError → String
  | .io reason => s!"i/o error: {reason}"
  | .closed reason => s!"connection closed: {reason}"
  | .exhausted attempts last =>
    s!"gave up after {attempts} connection attempts, last error: {last}"
  | .violation reason => s!"protocol violation: {reason}"
  | .notConnected => "not connected"

structure ServerError where
  code : Nat
  message : String
deriving DecidableEq

namespace ServerError

/-- The request was built for another version of the catalog. -/
def wrongSchemaVersion : Nat := 109

/-- Codes of conditions that pass by themselves: read-only, out of time, wrong schema version,
loading, read-only instance. -/
def transientCodes : List Nat := [7, 78, wrongSchemaVersion, 116, 128]

def isTransient (e : ServerError) : Bool := transientCodes.contains e.code

def isWrongSchemaVersion (e : ServerError) : Bool := e.code == wrongSchemaVersion

def text (e : ServerError) : String := s!"[{e.code}] {e.message}"

end ServerError

/-- What was being waited for when the time was over: room to write, a reply, the first
connection. -/
inductive Wait where
  | write
  | operation
  | init
deriving DecidableEq

def Wait.name : Wait → String
  | .write => "write"
  | .operation => "operation"
  | .init => "initial connect"

inductive SchemaError where
  | unavailable
  | spaceNotFound (name : String)
  | indexNotFound (space index : String)
  | inconsistent (attempts : Nat)
deriving DecidableEq

def SchemaError.message : SchemaError → String
  | .unavailable => "no schema cache attached to request"
  | .spaceNotFound name => s!"space '{name}' not found"
  | .indexNotFound space index => s!"index '{index}' not found in space '{space}'"
  | .inconsistent attempts => s!"catalog versions still differ after {attempts} attempts"

inductive ClientError where
  | codec (e : CodecError)
  | handshake (e : HandshakeError)
  | connection (e : ConnectionError)
  | server (e : ServerError)
  | timeout (wait : Wait)
  | schema (e : SchemaError)
deriving DecidableEq

namespace ClientError

def message : ClientError → String
  | .codec e => s!"codec error: {e.message}"
  | .handshake e => s!"handshake error: {e.message}"
  | .connection e => s!"connection error: {e.message}"
  | .server e => s!"server error: {e.text}"
  | .timeout wait => s!"{wait.name} timed out"
  | .schema e => s!"schema error: {e.message}"

/-- Whether another try over a sound connection may succeed: a connection that broke may come back
unless it was closed or given up. -/
def isTransient : ClientError → Bool
  | .connection (.closed _) => false
  | .connection (.exhausted _ _) => false
  | .connection _ => true
  | .server e => e.isTransient
  | _ => false

def serverCode? : ClientError → Option Nat
  | .server e => some e.code
  | _ => none

def isConnection : ClientError → Bool
  | .connection _ => true
  | _ => false

def isWrongSchemaVersion : ClientError → Bool
  | .server e => e.isWrongSchemaVersion
  | _ => false

def endOfInput : ClientError := .connection (.io "failed to fill whole buffer")

end ClientError
end TupleClient
