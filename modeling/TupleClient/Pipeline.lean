import TupleClient.Deadlines
import TupleClient.Frame
import TupleClient.Lifecycle
import TupleClient.Outbox
import TupleClient.Promise
import TupleClient.Settings

/-!
Any number of operations over one connection. Each gets a number of its own and waits under it
until its reply comes, its deadline passes, or the connection is gone.

Time is a number of milliseconds that the caller gives. What a step has to tell goes into a report:
states that were entered, operations that ended, bytes for the socket.
-/
namespace TupleClient

/-- An operation whose outcome is open. The tag is the submitter's. -/
structure Operation (κ : Type) where
  type : RequestType
  deadline : Option Nat
  createdVersion : Nat
  tag : κ

/-- The connection in use. `input` has come in and is not read yet; it has `ended` when the server
has closed its side. -/
structure Socket where
  generation : Nat
  address : String
  input : Bytes
  ended : Bool

namespace Socket

def append (s : Socket) (bs : Bytes) : Socket := { s with input := s.input ++ bs }

def keeping (s : Socket) (input : Bytes) : Socket := { s with input := input }

def atEnd (s : Socket) : Socket := { s with ended := true }

end Socket

inductive Happening (κ : Type) where
  | entered (s : Lifecycle.State)
  | ended (tag : κ) (outcome : Outcome)

/-- What a step has to tell: what happened, in order, the bytes for the socket, and whether the
socket is let go. -/
structure Report (κ : Type) where
  happenings : List (Happening κ)
  written : Bytes
  hungUp : Bool

/-- What can go wrong when a connection is taken into use: its socket is not split, or one of its
two loops does not start. -/
inductive Pipeline.Mishap where
  | split (reason : String)
  | loop (loop : Lifecycle.Loop) (reason : String)

/-- The waiting operations stand in the order of their numbers. The numbers are words of 64 bits in
the protocol, and no run is long enough to use them up. -/
structure Pipeline (κ : Type) where
  settings : PipelineSettings
  cell : Lifecycle.Cell
  nextSync : Nat
  pending : List (Nat × Operation κ)
  outbox : Outbox
  socket : Option Socket
  schemaVersion : Nat
  deadlines : Deadlines

/-- What a submitter hands over: the message may have failed to be built. -/
structure Submission (κ : Type) where
  type : RequestType
  message : Except ClientError Message
  timeout : Option Nat
  tag : κ

namespace Report

variable {κ : Type}

def silent : Report κ := ⟨[], [], false⟩

def ended (tag : κ) (outcome : Outcome) : Report κ := ⟨[.ended tag outcome], [], false⟩

def entered (s : Lifecycle.State) : Report κ := ⟨[.entered s], [], false⟩

def writing (bytes : Bytes) : Report κ := ⟨[], bytes, false⟩

def andThen (r s : Report κ) : Report κ :=
  ⟨r.happenings ++ s.happenings, r.written ++ s.written, r.hungUp || s.hungUp⟩

def states (r : Report κ) : List Lifecycle.State :=
  r.happenings.filterMap fun h =>
    match h with
    | .entered s => some s
    | .ended _ _ => none

def outcomes (r : Report κ) : List (κ × Outcome) :=
  r.happenings.filterMap fun h =>
    match h with
    | .entered _ => none
    | .ended tag outcome => some (tag, outcome)

end Report

namespace Pipeline

variable {κ : Type}

def create (settings : PipelineSettings) : Pipeline κ :=
  { settings := settings
    cell := .initial
    nextSync := 1
    pending := []
    outbox := .create settings.bufferSize settings.directFactor
    socket := none
    schemaVersion := 0
    deadlines := .empty }

def state (p : Pipeline κ) : Lifecycle.State := p.cell.state

def operation? (p : Pipeline κ) (id : Nat) : Option (Operation κ) := p.pending.lookup id

def isPending (p : Pipeline κ) (id : Nat) : Bool := (p.operation? id).isSome

def address? (p : Pipeline κ) : Option String := p.socket.map (·.address)

def withdraw (p : Pipeline κ) (id : Nat) (op : Operation κ) : Pipeline κ :=
  { p with
    pending := p.pending.filter (·.1 != id)
    deadlines :=
      match op.deadline with
      | some time => p.deadlines.cancel id time
      | none => p.deadlines }

def complete (p : Pipeline κ) (id : Nat) (outcome : Outcome) : Pipeline κ × Report κ :=
  match p.operation? id with
  | some op => (p.withdraw id op, .ended op.tag outcome)
  | none => (p, .silent)

def teardown (p : Pipeline κ) (e : ClientError) : Pipeline κ × Report κ :=
  ({ p with
      outbox := p.outbox.closed
      socket := none
      pending := []
      deadlines := p.pending.foldl
        (fun ds (id, op) =>
          match op.deadline with
          | some time => ds.cancel id time
          | none => ds) p.deadlines },
    ⟨p.pending.map fun (_, op) => .ended op.tag (.error e), [], p.socket.isSome⟩)

/-- The connection of a number broke. Only the first report on the present one counts. -/
def fail (p : Pipeline κ) (generation : Nat) (e : ClientError) : Pipeline κ × Report κ × Bool :=
  match p.cell.fail generation e with
  | (cell, true) =>
    let (torn, report) := { p with cell := cell }.teardown e
    (torn, (Report.entered .reconnecting).andThen report, true)
  | (_, false) => (p, .silent, false)

def close (p : Pipeline κ) (reason : ClientError) : Pipeline κ × Report κ × Bool :=
  match p.cell.close reason with
  | (cell, true) =>
    let (torn, report) := { p with cell := cell }.teardown reason
    ({ torn with deadlines := torn.deadlines.stop },
      (Report.entered .closed).andThen report, true)
  | (_, false) => (p, .silent, false)

def forceReconnect (p : Pipeline κ) : Pipeline κ × Report κ × Bool :=
  match p.socket with
  | some s => p.fail s.generation (.connection (.io "reconnect requested"))
  | none => (p, .silent, false)

def transition (p : Pipeline κ) (source target : Lifecycle.State) :
    Pipeline κ × Report κ × Bool :=
  match p.cell.transition source target with
  | (cell, true) => ({ p with cell := cell }, .entered target, true)
  | (_, false) => (p, .silent, false)

def supervise (p : Pipeline κ) : Pipeline κ × Report κ × Bool :=
  p.transition .uninitialized .reconnecting

def seek (p : Pipeline κ) : Pipeline κ × Report κ × Bool := p.transition .reconnecting .connecting

def begin (p : Pipeline κ) : Pipeline κ × Option Nat :=
  match p.cell.begin with
  | (cell, generation) => ({ p with cell := cell }, generation)

/-- Takes a new connection, unless it is outdated. The bytes came in behind the handshake. It is let
go again where a loop does not start. -/
def attach (p : Pipeline κ) (generation : Nat) (address : String) (rest : Bytes)
    (mishap : Option Mishap) : Pipeline κ × Except ClientError Unit :=
  if p.cell.generation = generation ∧ p.cell.state = .connecting then
    match mishap with
    | none =>
      ({ p with outbox := p.outbox.opened, socket := some ⟨generation, address, rest, false⟩ },
        .ok ())
    | some (.split reason) => (p, .error (.connection (.io reason)))
    | some (.loop _ reason) =>
      ({ p with outbox := p.outbox.closed, socket := none }, .error (.connection (.io reason)))
  else (p, .error (.connection (.closed "connection superseded")))

def frameOf (message : Except ClientError Message) (sync : Nat) : Except ClientError Bytes :=
  match message with
  | .error e => .error e
  | .ok m =>
    match Frame.encode (m.withSync sync) with
    | .ok bytes => .ok bytes
    | .error e => .error (.codec e)

def register (p : Pipeline κ) (now sync : Nat) (s : Submission κ) : Pipeline κ :=
  let deadline := s.timeout.map (now + ·)
  { p with
    pending := p.pending ++ [(sync, ⟨s.type, deadline, p.schemaVersion, s.tag⟩)]
    deadlines :=
      match deadline with
      | some time => p.deadlines.schedule sync time
      | none => p.deadlines }

/-- Writes to the socket at once. A `fault` is what the socket says against it. -/
def writeDirect (p : Pipeline κ) (fault : Option String) (sync : Nat) (bytes : Bytes) :
    Pipeline κ × Report κ :=
  match p.socket, fault with
  | none, _ => p.complete sync (.error (.connection .notConnected))
  | some _, none => (p, .writing bytes)
  | some s, some reason =>
    let e : ClientError := .connection (.io reason)
    let (failed, report, _) := p.fail s.generation e
    let (done, last) := failed.complete sync (.error e)
    (done, report.andThen last)

/-- Sends a frame: through the outbox, or past it if the frame is long. What cannot be sent ends
the operation. -/
def dispatchFrame (p : Pipeline κ) (fault : Option String) (sync : Nat) (bytes : Bytes) :
    Pipeline κ × Report κ :=
  if p.outbox.isDirect bytes.length then p.writeDirect fault sync bytes
  else
    match p.outbox.push bytes with
    | .ok outbox => ({ p with outbox := outbox }, .silent)
    | .error e => p.complete sync (.error e)

/-- Starts an operation and gives its number. Without a connection it ends at once with the error
that the connection left, and where the message cannot be built with the reason for that. -/
def submit (p : Pipeline κ) (now : Nat) (fault : Option String) (s : Submission κ) :
    Pipeline κ × Report κ × Nat :=
  let sync := p.nextSync
  let p := { p with nextSync := sync + 1 }
  match p.cell.terminal with
  | some e => (p, .ended s.tag (.error e), sync)
  | none =>
    match frameOf s.message sync with
    | .error e => (p, .ended s.tag (.error e), sync)
    | .ok bytes =>
      let (sent, report) := (p.register now sync s).dispatchFrame fault sync bytes
      (sent, report, sync)

/-- The writer takes what waits and writes it in one go. -/
def drain (p : Pipeline κ) (fault : Option String) : Pipeline κ × Report κ :=
  match p.socket, p.outbox.take with
  | some s, (outbox, some (b :: bs)) =>
    let p := { p with outbox := outbox }
    match fault with
    | none => (p, .writing (b :: bs))
    | some reason =>
      let (failed, report, _) := p.fail s.generation (.connection (.io reason))
      (failed, report)
  | _, _ => (p, .silent)

/-- A reply that came in ends the operation of its number. What belongs to none is dropped. A reply
without a number, or without a status to an operation that waits, breaks the rules. -/
def dispatch (p : Pipeline κ) (m : Message) :
    Pipeline κ × Report κ × Option ConnectionError :=
  let p :=
    match m.schemaVersion? with
    | some version => { p with schemaVersion := max p.schemaVersion version }
    | none => p
  match m.sync? with
  | none => (p, .silent, some (.violation "response without sync id"))
  | some sync =>
    match p.operation? sync with
    | none => (p, .silent, none)
    | some op =>
      let p := p.withdraw sync op
      match Response.ofMessage m (some op.type) with
      | .ok (_, .ok response) => (p, .ended op.tag (.ok response), none)
      | .ok (_, .error e) => (p, .ended op.tag (.error (.server e)), none)
      | .error e => (p, .ended op.tag (.error (.connection e)), some e)

/-- Reads all frames that the input has. The first thing that is none, or that breaks the rules,
ends the connection, and so does the end of the input. -/
def readFrames (p : Pipeline κ) (generation : Nat) (ended : Bool) (input : Bytes) :
    Pipeline κ × Report κ :=
  match _received : Frame.receive p.settings.maxFrame input with
  | .incomplete =>
    if ended then
      let (failed, report, _) := p.fail generation .endOfInput
      (failed, report)
    else
      ({ p with socket := p.socket.map (·.keeping input) }, .silent)
  | .malformed e _ =>
    let (failed, report, _) := p.fail generation (.connection (.violation e.message))
    (failed, report)
  | .message m rest =>
    match p.dispatch m with
    | (next, report, none) =>
      let (done, more) := next.readFrames generation ended rest
      (done, report.andThen more)
    | (next, report, some e) =>
      let (failed, last, _) := next.fail generation (.connection e)
      (failed, report.andThen last)
termination_by input.length
decreasing_by exact Frame.length_receive (by rw [_received]; rfl)

def isReading (p : Pipeline κ) : Bool := p.cell.state == .reading || p.cell.state == .alive

def readOn (p : Pipeline κ) : Pipeline κ × Report κ :=
  match p.socket with
  | some s => if p.isReading then p.readFrames s.generation s.ended s.input else (p, .silent)
  | none => (p, .silent)

def receive (p : Pipeline κ) (bs : Bytes) : Pipeline κ × Report κ :=
  readOn { p with socket := p.socket.map (·.append bs) }

def hangUp (p : Pipeline κ) : Pipeline κ × Report κ :=
  readOn { p with socket := p.socket.map (·.atEnd) }

/-- A loop of a connection begins to run; the reader reads what has come in already. -/
def started (p : Pipeline κ) (generation : Nat) (loop : Lifecycle.Loop) :
    Pipeline κ × Report κ × Bool :=
  match p.cell.loopStarted generation loop with
  | (cell, true) =>
    let (read, report) := { p with cell := cell }.readOn
    (read, (Report.entered cell.state).andThen report, true)
  | (_, false) => (p, .silent, false)

def expire (p : Pipeline κ) (id : Nat) : Pipeline κ × Report κ :=
  p.complete id (.error (.timeout .operation))

def expireAll (p : Pipeline κ) : List Nat → Pipeline κ × Report κ
  | [] => (p, .silent)
  | id :: ids =>
    let (next, report) := p.expire id
    let (done, more) := next.expireAll ids
    (done, report.andThen more)

def tick (p : Pipeline κ) (now : Nat) : Pipeline κ × Report κ :=
  match p.deadlines.service now with
  | (deadlines, ids) => { p with deadlines := deadlines }.expireAll ids

end Pipeline

inductive Signal where
  | supervised
  | seeking
  | begun
  | attached (generation : Nat) (address : String) (rest : Bytes)
    (mishap : Option Pipeline.Mishap)
  | started (generation : Nat) (loop : Lifecycle.Loop)
  | writable (fault : Option String)
  | received (bytes : Bytes)
  | hungUp
  | clock (now : Nat)
  | expired (id : Nat)
  | broken (generation : Nat) (e : ClientError)
  | reconnect
  | closed (reason : ClientError)

namespace Pipeline

variable {κ : Type}

def signal (p : Pipeline κ) : Signal → Pipeline κ × Report κ
  | .supervised => let (q, r, _) := p.supervise; (q, r)
  | .seeking => let (q, r, _) := p.seek; (q, r)
  | .begun => (p.begin.1, .silent)
  | .attached generation address rest mishap =>
    ((p.attach generation address rest mishap).1, .silent)
  | .started generation loop => let (q, r, _) := p.started generation loop; (q, r)
  | .writable fault => p.drain fault
  | .received bytes => p.receive bytes
  | .hungUp => p.hangUp
  | .clock now => p.tick now
  | .expired id => p.expire id
  | .broken generation e => let (q, r, _) := p.fail generation e; (q, r)
  | .reconnect => let (q, r, _) := p.forceReconnect; (q, r)
  | .closed reason => let (q, r, _) := p.close reason; (q, r)

inductive Event (κ : Type) where
  | submit (now : Nat) (fault : Option String) (s : Submission κ)
  | signal (s : Signal)

def step (p : Pipeline κ) : Event κ → Pipeline κ × Report κ
  | .submit now fault s => let (q, r, _) := p.submit now fault s; (q, r)
  | .signal s => p.signal s

def run (p : Pipeline κ) : List (Event κ) → Pipeline κ × Report κ
  | [] => (p, .silent)
  | e :: es =>
    let (q, r) := p.step e
    let (done, more) := q.run es
    (done, r.andThen more)

end Pipeline
end TupleClient
