/-!
What a client is told when it is made. Times are in milliseconds.
-/
namespace TupleClient

structure Credentials where
  user : String
  password : String
deriving DecidableEq

/-- How operations share the connection. The factor is a double by its bits: frames longer than
that fraction of the buffer are written by themselves. -/
structure PipelineSettings where
  operationTimeout : Option Nat
  writeTimeout : Nat
  bufferSize : Nat
  directFactor : UInt64
  maxFrame : Nat

/-- How a connection is made. No limit on retries means to go on for ever. -/
structure ReconnectSettings where
  connectTimeout : Nat
  credentials : Option Credentials
  maxFrame : Nat
  retries : Option Nat
  delay : Nat

/-- How the client keeps to a cluster: the function that gives the members, if there is one, and
how often to call it; and how many replays may run side by side. -/
structure ClusterSettings where
  discovery : Option String
  discoveryDelay : Nat
  replayThreads : Nat

def ClusterSettings.standard : ClusterSettings := ⟨none, 60000, 2⟩

structure Settings where
  addresses : List String
  credentials : Option Credentials
  initTimeout : Nat
  operationTimeout : Option Nat
  writeTimeout : Nat
  connectTimeout : Nat
  retries : Option Nat
  reconnectDelay : Nat
  bufferSize : Nat
  directFactor : UInt64
  maxFrame : Nat
  refreshAttempts : Nat
  cluster : Option ClusterSettings

namespace Settings

def half : UInt64 := 0x3fe0000000000000

def standard : Settings :=
  { addresses := ["127.0.0.1:3301"]
    credentials := none
    initTimeout := 5000
    operationTimeout := some 3000
    writeTimeout := 1000
    connectTimeout := 1000
    retries := some 3
    reconnectDelay := 500
    bufferSize := 8 * 1024 * 1024
    directFactor := half
    maxFrame := 128 * 1024 * 1024
    refreshAttempts := 10
    cluster := none }

def pipeline (s : Settings) : PipelineSettings :=
  ⟨s.operationTimeout, s.writeTimeout, s.bufferSize, s.directFactor, s.maxFrame⟩

def reconnect (s : Settings) : ReconnectSettings :=
  ⟨s.connectTimeout, s.credentials, s.maxFrame, s.retries, s.reconnectDelay⟩

end Settings
end TupleClient
