import TupleClient.Addresses
import TupleClient.Handshake
import TupleClient.Lifecycle

/-!
Making a connection: address after address is tried, with a pause after each failure, until one
works, the client is closed, or the limit is reached.
-/
namespace TupleClient

/-- How many attempts have failed in a row, and how the last one did. The count is a word of 32
bits: it starts anew behind the failure number 2 ^ 32, where a build with overflow checks stops. -/
structure Campaign where
  attempt : UInt32
  last : Option ClientError

namespace Campaign

def start : Campaign := ⟨0, none⟩

def failed (c : Campaign) (e : ClientError) : Campaign := ⟨c.attempt + 1, some e⟩

def exhausted (c : Campaign) : ClientError :=
  .connection (.exhausted c.attempt.toNat ((c.last.map ClientError.message).getD ""))

inductive Decision where
  | stop
  | giveUp (e : ClientError)
  | attempt

/-- A closed client needs no connection; without a limit it goes on for ever. -/
def decide (c : Campaign) (limit : Option Nat) (state : Lifecycle.State) : Decision :=
  if state = .closed then .stop
  else
    match limit with
    | none => .attempt
    | some n => if n ≤ c.attempt.toNat then .giveUp c.exhausted else .attempt

end Campaign

inductive Supervisor.Phase where
  | idle
  | dialing (c : Campaign) (address : String)
  | shaking (c : Campaign) (address : String) (h : Handshake) (till : Nat)
  | pausing (c : Campaign) (till : Nat)
  | stopped

/-- What the supervisor wants done: a socket to an address, bytes sent over it, the socket taken
into use, let go, or the client closed. -/
inductive Supervisor.Order where
  | dial (address : String)
  | send (bytes : Bytes)
  | attach (address : String) (rest : Bytes)
  | hangUp
  | close (e : ClientError)

structure Supervisor (α : Type := Addresses) where
  settings : ReconnectSettings
  addresses : α
  phase : Supervisor.Phase

namespace Supervisor

variable {α : Type}

def create (settings : ReconnectSettings) (addresses : α) : Supervisor α :=
  ⟨settings, addresses, .idle⟩

def inPhase (s : Supervisor α) (phase : Phase) : Supervisor α := { s with phase := phase }

def pause (s : Supervisor α) (now : Nat) (c : Campaign) (e : ClientError) : Supervisor α :=
  s.inPhase (.pausing (c.failed e) (now + s.settings.delay))

/-- The next attempt. The addresses are asked once for it. -/
def pursue [AddressSource α] (s : Supervisor α) (now : Nat) (state : Lifecycle.State)
    (c : Campaign) :
    Supervisor α × List Order :=
  match c.decide s.settings.retries state with
  | .stop => (s.inPhase .stopped, [])
  | .giveUp e => (s.inPhase .stopped, [.close e])
  | .attempt =>
    match AddressSource.next s.addresses c.attempt c.last with
    | (addresses, some address) =>
      ({ s with addresses := addresses, phase := .dialing c address }, [.dial address])
    | (addresses, none) =>
      ({ s with addresses := addresses }.pause now c (.connection .notConnected), [])

def begin [AddressSource α] (s : Supervisor α) (now : Nat) (state : Lifecycle.State) :
    Supervisor α × List Order :=
  match s.phase with
  | .idle => s.pursue now state .start
  | _ => (s, [])

def shaken (s : Supervisor α) (now : Nat) (c : Campaign) (address : String)
    (step : Bytes × (Handshake ⊕ Handshake.Result)) : Supervisor α × List Order :=
  let sending : List Order := if step.1.isEmpty then [] else [.send step.1]
  match step.2 with
  | .inl h =>
    (s.inPhase (.shaking c address h (now + s.settings.connectTimeout)), sending)
  | .inr (.established _ rest) =>
    (s.inPhase (.dialing c address), sending ++ [.attach address rest])
  | .inr (.failed e) => (s.pause now c e, sending ++ [.hangUp])

def dialed (s : Supervisor α) (now : Nat) (result : Except ConnectionError Unit) :
    Supervisor α × List Order :=
  match s.phase, result with
  | .dialing c address, .ok () =>
    s.shaken now c address
      (Handshake.start s.settings.credentials s.settings.maxFrame).advance
  | .dialing c _, .error e => (s.pause now c (.connection e), [])
  | .stopped, .ok () => (s, [.hangUp])
  | _, _ => (s, [])

def received (s : Supervisor α) (now : Nat) (bs : Bytes) : Supervisor α × List Order :=
  match s.phase with
  | .shaking c address h _ => s.shaken now c address (h.receive bs)
  | _ => (s, [])

def hungUp (s : Supervisor α) (now : Nat) : Supervisor α × List Order :=
  match s.phase with
  | .shaking c _ _ _ => (s.pause now c .endOfInput, [.hangUp])
  | _ => (s, [])

def broken (s : Supervisor α) (now : Nat) (reason : String) : Supervisor α × List Order :=
  match s.phase with
  | .shaking c _ _ _ => (s.pause now c (.connection (.io reason)), [.hangUp])
  | _ => (s, [])

def attached (s : Supervisor α) (now : Nat) (result : Except ClientError Unit) :
    Supervisor α × List Order :=
  match s.phase, result with
  | .dialing _ _, .ok () => (s.inPhase .idle, [])
  | .dialing c _, .error e => (s.pause now c e, [.hangUp])
  | _, _ => (s, [])

/-- The clock shows `now`: pauses end, and so does the patience with a silent server. -/
def tick [AddressSource α] (s : Supervisor α) (now : Nat) (state : Lifecycle.State) :
    Supervisor α × List Order :=
  match s.phase with
  | .pausing c till => if till ≤ now then s.pursue now state c else (s, [])
  | .shaking c _ h till =>
    if till ≤ now then
      match h.timedOut with
      | .failed e => (s.pause now c e, [.hangUp])
      | .established _ _ => (s, [])
    else (s, [])
  | _ => (s, [])

def isIdle (s : Supervisor α) : Bool :=
  match s.phase with
  | .idle => true
  | _ => false

/-- The client was closed. A pause ends at once, and a connection in the making is dropped; a socket
that is still to come is let go when it comes. -/
def closed (s : Supervisor α) : Supervisor α × List Order :=
  match s.phase with
  | .shaking _ _ _ _ => (s.inPhase .stopped, [.hangUp])
  | _ => (s.inPhase .stopped, [])

end Supervisor
end TupleClient
