import Std.Async.DNS
import Std.Async.TCP
import Std.Async.Timer
import TupleClient.Client
import TupleClient.Endpoint
import TupleClient.Shell.Arguments
import TupleClient.Shell.Render
import TupleClient.Shell.Session

/-!
The shell as a program. All that it decides is decided elsewhere: here bytes go to and from the
terminal and the socket, and effects of the client are carried out.
-/
namespace TupleClient.Terminal

open Std.Async (Async Selectable Selector)
open Std.Net (IPAddr IPv4Addr IPv6Addr SocketAddress)

abbrev Stream := Std.Async.TCP.Socket.Client

def systemCode : IO.Error → Option UInt32
  | .alreadyExists _ code _ => some code
  | .otherError code _ => some code
  | .resourceBusy code _ => some code
  | .resourceVanished code _ => some code
  | .unsupportedOperation code _ => some code
  | .hardwareFault code _ => some code
  | .unsatisfiedConstraints code _ => some code
  | .illegalOperation code _ => some code
  | .protocolError code _ => some code
  | .timeExpired code _ => some code
  | .noSuchThing _ code _ => some code
  | .permissionDenied _ code _ => some code
  | .resourceExhausted _ code _ => some code
  | .invalidArgument _ code _ => some code
  | .inappropriateType _ code _ => some code
  | _ => none

/-- Some layers give the number with a minus, as a word of 32 bits. -/
def reasonOf (e : IO.Error) : String :=
  match systemCode e with
  | some code =>
    systemErrorText (if code.toNat < 0x80000000 then code.toNat else 0x100000000 - code.toNat)
  | none => toString e

def resolve (e : Endpoint) : Async (List SocketAddress) := do
  let port := UInt16.ofNat e.port
  let socketOf : IPAddr → SocketAddress
    | .v4 addr => .v4 ⟨addr, port⟩
    | .v6 addr => .v6 ⟨addr, port⟩
  match IPv4Addr.ofString e.host, IPv6Addr.ofString e.host with
  | some addr, _ => return [socketOf (.v4 addr)]
  | none, some addr => return [socketOf (.v6 addr)]
  | none, none => return ((← Std.Async.DNS.getAddrInfo e.host "").map socketOf).toList

def within {α : Type} [Inhabited α] (time : Nat) (action : Async α) : Async (Option α) := do
  let timer : Async (Option α) := do
    Std.Async.sleep (.ofNat time)
    return none
  Async.race (do return some (← action)) timer

/-- The first address that takes a connection, or how the last one refused it. -/
def connectAny (time : Nat) (last : ConnectionError) :
    List SocketAddress → Async (Except ConnectionError Stream)
  | [] => return .error last
  | address :: rest => do
    let socket ← Std.Async.TCP.Socket.Client.mk
    let attempt : Async (Except String Unit) := do
      try
        socket.connect address
        return .ok ()
      catch e => return .error (reasonOf e)
    match ← within time attempt with
    | some (.ok ()) =>
      socket.noDelay
      return .ok socket
    | some (.error reason) => connectAny time (.io reason) rest
    | none => connectAny time (.io "connection timed out") rest

def dial (address : String) (time : Nat) : Async (Except ConnectionError Stream) := do
  match Endpoint.parse address with
  | .error reason => return .error (.io reason)
  | .ok endpoint =>
    try
      connectAny time (.violation s!"{address} resolved to no addresses") (← resolve endpoint)
    catch e => return .error (.io (reasonOf e))

instance : Inhabited Outcome := ⟨.error (.connection .notConnected)⟩

inductive Wish where
  | run (r : Request) (answer : IO.Promise Outcome)
  | quit (done : IO.Promise Unit)

structure Desk where
  wishes : IO.Ref (Array Wish)
  catalog : IO.Ref Catalog.Snapshot
  opened : IO.Promise (Except ClientError Unit)

structure Station where
  client : Client Nat
  stream : Option Stream
  waiting : List (Nat × IO.Promise Outcome)
  next : Nat

def hangUp (stream : Option Stream) : Async Unit := do
  match stream with
  | some s =>
    try s.shutdown
    catch _ => return ()
  | none => return ()

mutual
/-- Lets the client take an event and carries out what follows. -/
partial def take (desk : Desk) (station : Station) (event : Client.Event Nat) :
    Async Station := do
  let turn := station.client.step (← IO.monoMsNow) event
  carryOut desk { station with client := turn.client } turn.effects
partial def carryOut (desk : Desk) (station : Station) :
    List (Client.Effect Nat) → Async Station
  | [] => do
    desk.catalog.set station.client.cache.current
    match station.client.next? with
    | none => return station
    | some worker =>
      let turn := station.client.proceed (← IO.monoMsNow) worker
      carryOut desk { station with client := turn.client } turn.effects
  | .dial address :: rest => do
    match ← dial address station.client.settings.connectTimeout with
    | .ok stream =>
      let station ← take desk { station with stream := some stream } (.dialed (.ok ()))
      carryOut desk station rest
    | .error reason =>
      let station ← take desk station (.dialed (.error reason))
      carryOut desk station rest
  | .send bytes :: rest => do
    match station.stream with
    | none => carryOut desk station rest
    | some stream =>
      let fault ←
        try
          stream.send ⟨bytes.toArray⟩
          pure none
        catch e => pure (some (reasonOf e))
      match fault with
      | none => carryOut desk station rest
      | some reason =>
        let station ← take desk station (.broken reason)
        carryOut desk station rest
  | .hangUp :: rest => do
    hangUp station.stream
    carryOut desk { station with stream := none } rest
  | .opened :: rest => do
    desk.opened.resolve (.ok ())
    carryOut desk station rest
  | .refused e :: rest => do
    desk.opened.resolve (.error e)
    carryOut desk station rest
  | .finished tag outcome :: rest => do
    match station.waiting.lookup tag with
    | some answer => answer.resolve outcome
    | none => pure ()
    carryOut desk { station with waiting := station.waiting.filter (·.1 != tag) } rest
end

def listen (stream : Option Stream) : Async (Option (Client.Event Nat)) := do
  let moment ← Selector.sleep 5
  match stream with
  | none =>
    Selectable.one #[.case moment fun _ => return none]
  | some s =>
    try
      Selectable.one #[
        .case moment fun _ => return none,
        .case (s.recvSelector 65536) fun
          | some bytes => return some (.received bytes.data.toList none)
          | none => return some .hungUp]
    catch e => return some (.broken (reasonOf e))

partial def serve (desk : Desk) (station : Station) : Async Unit := do
  let next : Option Wish ← desk.wishes.modifyGet fun ws => (ws[0]?, ws.extract 1 ws.size)
  match next with
  | some (.quit done) =>
    let _ ← take desk station .close
    done.resolve ()
  | some (.run r answer) =>
    let tag := station.next
    let station := { station with next := tag + 1, waiting := (tag, answer) :: station.waiting }
    serve desk (← take desk station (.execute r tag))
  | none =>
    let station ←
      match ← listen station.stream with
      | some .hungUp => take desk { station with stream := none } .hungUp
      | some event => take desk station event
      | none => pure station
    serve desk (← take desk station .clock)

def wish (desk : Desk) (w : Wish) : IO Unit := desk.wishes.modify (·.push w)

/-- The bytes of a line as they are, with its end. -/
partial def readLine (input : IO.FS.Stream) (line : Array UInt8) : IO (Array UInt8) := do
  let bytes ← input.read 1
  match bytes.data[0]? with
  | none => return line
  | some b => if b == 0x0a then return line.push b else readLine input (line.push b)

def terminal (desk : Desk) (input output errors : IO.FS.Stream) : Shell.Terminal IO where
  line := do return (← readLine input #[]).toList
  put text := do
    output.putStr text
    output.flush
  complain text := errors.putStr text
  catalog := desk.catalog.get
  execute r := do
    let answer : IO.Promise Outcome ← IO.Promise.new
    wish desk (.run r answer)
    return (← IO.wait answer.result?).getD (.error (.connection .notConnected))

/-- The result is whether the input ended well. -/
def session (desk : Desk) (input output errors : IO.FS.Stream) : IO Bool := do
  match ← Shell.session (terminal desk input output errors) with
  | .notText =>
    errors.putStrLn s!"Error: {Shell.notTextMessage}"
    return false
  | _ => return true

def run (settings : Settings) (input output errors : IO.FS.Stream) : IO UInt32 := do
  match Client.open? (κ := Nat) settings (← IO.monoMsNow) with
  | .error e =>
    errors.putStrLn s!"Error: {e.message}"
    return 1
  | .ok turn =>
    let desk : Desk := ⟨← IO.mkRef #[], ← IO.mkRef .empty, ← IO.Promise.new⟩
    let network : Async Unit := do
      serve desk (← carryOut desk ⟨turn.client, none, [], 0⟩ turn.effects)
    let _ ← IO.asTask network.block .dedicated
    let code : UInt32 ←
      match (← IO.wait desk.opened.result?).getD (.error (.connection .notConnected)) with
      | .error e =>
        errors.putStrLn s!"Error: {e.message}"
        pure 1
      | .ok () => pure (if ← session desk input output errors then 0 else 1)
    let done : IO.Promise Unit ← IO.Promise.new
    wish desk (.quit done)
    let _ ← IO.wait done.result?
    return code

end TupleClient.Terminal

def main (args : List String) : IO UInt32 := do
  let errors ← IO.getStderr
  match TupleClient.Shell.Arguments.settings args with
  | .error e =>
    errors.putStrLn s!"error: {e.message}"
    return 2
  | .ok settings => TupleClient.Terminal.run settings (← IO.getStdin) (← IO.getStdout) errors
