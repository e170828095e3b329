import TupleClient.Membership
import TupleClient.Reconnect
import TupleClient.Retry

/-!
The client: a pipeline over a connection that is made again when it breaks, a catalog that is read
when names are needed, retries and the members of the cluster where there is one.

A client is told what comes from outside, and answers with effects. What follows from an event
inside of it is done by workers, each of which looks at the client as it is when its turn comes. The
turns may come in any order.
-/
namespace TupleClient

/-- Whose operation it is: the user's, a reading of the catalog, or the question for members. -/
inductive Client.Tag (κ : Type) where
  | user (tag : κ)
  | read (task : Nat)
  | members

/-- What the catalog is read for: to open the client, for a request with names, or for a replay. -/
inductive Client.Purpose (κ : Type) where
  | opening
  | ensure (request : Request) (tag : κ)
  | replay

structure Client.Task (κ : Type) where
  number : Nat
  refresh : Catalog.Refresh
  purpose : Client.Purpose κ

/-- How far the opening of a client is. A connection that was `found` may be gone again before the
catalog is read. -/
inductive Client.Opening where
  | waiting (till : Nat)
  | found
  | loading
  | done
  | refused
deriving DecidableEq

/-- When the members are asked for next; `none` while they are being asked for, and without a
cluster. -/
structure Client.Discovery where
  function : Option String
  delay : Nat
  next : Option Nat
  known : Option (List String)

inductive Client.Effect (κ : Type) where
  | dial (address : String)
  | send (bytes : Bytes)
  | hangUp
  | opened
  | refused (e : ClientError)
  | finished (tag : κ) (outcome : Outcome)

/-- Who works in a client: the supervisor, the one who opens it, whoever waits for the outcome in
place `i` of the list, a replay, and the writer. -/
inductive Client.Worker where
  | supervisor
  | opening
  | waiter (i : Nat)
  | replay
  | writer

/-- The operations that have `ended` wait there until somebody comes for the outcome. -/
structure Client (κ : Type) where
  settings : Settings
  retry : Retry (Client.Tag κ)
  supervisor : Supervisor
  opening : Client.Opening
  discovery : Client.Discovery
  tasks : List (Client.Task κ)
  nextTask : Nat
  ended : List (Client.Tag κ × Outcome)

structure Client.Turn (κ : Type) where
  client : Client κ
  effects : List (Client.Effect κ)

namespace Client

variable {κ : Type}

def Turn.andThen (t : Turn κ) (f : Client κ → Turn κ) : Turn κ :=
  let u := f t.client
  ⟨u.client, t.effects ++ u.effects⟩

def quiet (c : Client κ) : Turn κ := ⟨c, []⟩

def state (c : Client κ) : Lifecycle.State := c.retry.pipeline.state

def cache (c : Client κ) : Catalog.Cache :=
  c.retry.catalog.getD (.create c.settings.refreshAttempts)

/-- One address that does not change, or a list to go round. -/
def addressesOf (s : Settings) : Addresses :=
  match s.addresses, s.cluster with
  | [address], none => .single address
  | list, _ => .ofList list

def create (s : Settings) (now : Nat) : Client κ :=
  { settings := s
    retry := .create s.pipeline (some (.create s.refreshAttempts)) s.cluster.isSome
    supervisor := .create s.reconnect (addressesOf s)
    opening := .waiting (now + s.initTimeout)
    discovery :=
      ⟨s.cluster.bind (·.discovery), (s.cluster.map (·.discoveryDelay)).getD 0, none, none⟩
    tasks := []
    nextTask := 0
    ended := [] }

def absorb (c : Client κ) (step : Retry (Tag κ) × Report (Tag κ)) : Turn κ :=
  { client := { c with retry := step.1, ended := c.ended ++ step.2.outcomes }
    effects :=
      (if step.2.written.isEmpty then [] else [.send step.2.written]) ++
        (if step.2.hungUp then [.hangUp] else []) }

def signal (c : Client κ) (s : Signal) : Turn κ := c.absorb (c.retry.signal s)

def startLoops (c : Client κ) (generation : Nat) (mishap : Option Pipeline.Mishap) : Turn κ :=
  match mishap with
  | none =>
    (c.signal (.started generation .writer)).andThen (·.signal (.started generation .reader))
  | some (.loop .reader _) => c.signal (.started generation .writer)
  | some _ => c.quiet

def attach (c : Client κ) (now : Nat) (address : String) (rest : Bytes)
    (mishap : Option Pipeline.Mishap) : Turn κ × List Supervisor.Order :=
  match c.retry.pipeline.begin with
  | (_, none) =>
    let (s, orders) :=
      c.supervisor.attached now (.error (.connection (.closed "closed while connecting")))
    ({ c with supervisor := s }.quiet, orders)
  | (p, some generation) =>
    let (p, result) := p.attach generation address rest mishap
    let (s, orders) := c.supervisor.attached now result
    ({ c with supervisor := s, retry := { c.retry with pipeline := p } }.startLoops generation
      mishap, orders)

def obey (c : Client κ) (now : Nat) (mishap : Option Pipeline.Mishap) :
    List Supervisor.Order → Turn κ
  | [] => c.quiet
  | .dial address :: rest => Turn.andThen ⟨c, [.dial address]⟩ (·.obey now mishap rest)
  | .send bytes :: rest => Turn.andThen ⟨c, [.send bytes]⟩ (·.obey now mishap rest)
  | .hangUp :: rest => Turn.andThen ⟨c, [.hangUp]⟩ (·.obey now mishap rest)
  | .close e :: rest => (c.signal (.closed e)).andThen (·.obey now mishap rest)
  | .attach address more :: rest =>
    let (turn, orders) := c.attach now address more mishap
    let hangUps : List (Effect κ) :=
      if orders.isEmpty then [] else [.hangUp]
    Turn.andThen ⟨turn.client, turn.effects ++ hangUps⟩ (·.obey now mishap rest)

/-- The supervisor has taken a step. A mishap is met only where a connection is taken into use. -/
def supervised (c : Client κ) (now : Nat) (mishap : Option Pipeline.Mishap)
    (step : Supervisor × List Supervisor.Order) : Turn κ :=
  { c with supervisor := step.1 }.obey now mishap step.2

def start (c : Client κ) : Turn κ := c.signal .supervised

def shut (c : Client κ) (reason : ClientError) : Turn κ :=
  { c with discovery := { c.discovery with next := none } }.signal (.closed reason)

def refuse (c : Client κ) (reason e : ClientError) : Turn κ :=
  (c.shut reason).andThen fun c => ⟨{ c with opening := .refused }, [.refused e]⟩

def readFor (c : Client κ) (now : Nat) (t : Task κ) : Turn κ :=
  { c with tasks := c.tasks ++ [t] }.absorb
    (c.retry.submitPlain now none t.refresh.view.request c.settings.operationTimeout
      (.read t.number))

def startTask (c : Client κ) (now : Nat) (purpose : Purpose κ) : Turn κ :=
  { c with nextTask := c.nextTask + 1 }.readFor now ⟨c.nextTask, .start c.cache, purpose⟩

def submit (c : Client κ) (now : Nat) (request : Request) (tag : κ) : Turn κ :=
  let timeout := c.settings.operationTimeout
  if c.settings.cluster.isSome then
    let (retry, report, _) := c.retry.execute now none request timeout (.user tag)
    c.absorb (retry, report)
  else c.absorb (c.retry.submitPlain now none request timeout (.user tag))

/-- A request of the user. If a name in it is not known the catalog is read first. -/
def execute (c : Client κ) (now : Nat) (request : Request) (tag : κ) : Turn κ :=
  if request.isSchemaBound && (c.cache.missing? request.spaceNames).isSome then
    c.startTask now (.ensure request tag)
  else c.submit now request tag

def install (c : Client κ) (s : Catalog.Snapshot) : Client κ :=
  { c with retry := c.retry.install s }

/-- Waits for the next time to ask for the members; a closed client asks no more. -/
def awaitPoll (c : Client κ) (now : Nat) : Client κ :=
  if c.discovery.function.isSome && c.state != .closed then
    { c with discovery := { c.discovery with next := some (now + c.discovery.delay) } }
  else c

def finish (c : Client κ) (now : Nat) (purpose : Purpose κ)
    (result : Except ClientError Catalog.Snapshot) : Turn κ :=
  match purpose, result with
  | .opening, .ok s => ⟨{ c.install s with opening := .done }.awaitPoll now, [.opened]⟩
  | .opening, .error e => c.refuse (.connection (.closed "client dropped")) e
  | .ensure request tag, .ok s =>
    let c := c.install s
    match c.cache.missing? request.spaceNames with
    | some name => ⟨c, [.finished tag (.error (.schema (.spaceNotFound name)))]⟩
    | none => c.submit now request tag
  | .ensure _ tag, .error e => ⟨c, [.finished tag (.error e)]⟩
  | .replay, result => c.absorb (c.retry.replayAfter now none result)

def answered (c : Client κ) (now : Nat) (number : Nat) (outcome : Outcome) : Turn κ :=
  match c.tasks.find? (·.number == number) with
  | none => c.quiet
  | some t =>
    let c := { c with tasks := c.tasks.filter (·.number != number) }
    match t.refresh.answered outcome with
    | .inl refresh => c.readFor now { t with refresh := refresh }
    | .inr result => c.finish now t.purpose result

def polled (c : Client κ) (now : Nat) (outcome : Outcome) : Turn κ :=
  let pipeline := c.retry.pipeline
  let verdict := Membership.poll c.discovery.known c.supervisor.addresses pipeline.address?
    pipeline.pending.length (Membership.ofAnswer outcome)
  let c := { c with
    discovery := { c.discovery with known := verdict.known }
    supervisor := { c.supervisor with addresses := verdict.addresses } }.awaitPoll now
  if verdict.leave then c.signal .reconnect else c.quiet

/-- The supervisor looks at the state. While it makes a connection it does not look. -/
def attend (c : Client κ) (now : Nat) : Turn κ :=
  match c.state with
  | .reconnecting =>
    if c.supervisor.isIdle then
      (c.signal .seeking).andThen fun c => c.supervised now none (c.supervisor.begin now c.state)
    else c.quiet
  | .closed => c.supervised now none c.supervisor.closed
  | _ => c.quiet

/-- The one who opens the client looks at the state, or goes on with a connection that was found. -/
def look (c : Client κ) (now : Nat) : Turn κ :=
  match c.opening with
  | .waiting till =>
    match c.state with
    | .alive => { c with opening := .found }.quiet
    | .closed =>
      c.refuse (.connection (.closed "client dropped"))
        (c.retry.pipeline.cell.terminal.getD (.connection .notConnected))
    | _ => if till ≤ now then c.refuse (.timeout .init) (.timeout .init) else c.quiet
  | .found => { c with opening := .loading }.startTask now .opening
  | _ => c.quiet

def deliver (c : Client κ) (now : Nat) (tag : Tag κ) (outcome : Outcome) : Turn κ :=
  match tag with
  | .user tag => ⟨c, [.finished tag outcome]⟩
  | .read number => c.answered now number outcome
  | .members => c.polled now outcome

def fetch (c : Client κ) (now i : Nat) : Turn κ :=
  match c.ended[i]? with
  | some (tag, outcome) => { c with ended := c.ended.eraseIdx i }.deliver now tag outcome
  | none => c.quiet

def replaying (c : Client κ) : Nat :=
  (c.tasks.filter fun t =>
    match t.purpose with
    | .replay => true
    | _ => false).length

def replayLimit (c : Client κ) : Nat := max 1 ((c.settings.cluster.map (·.replayThreads)).getD 1)

def canReplay (c : Client κ) : Bool := 0 < c.retry.replays && c.replaying < c.replayLimit

def beginReplay (c : Client κ) (now : Nat) : Turn κ :=
  let c := { c with retry := { c.retry with replays := c.retry.replays - 1 } }
  if c.retry.needsRefresh then c.startTask now .replay
  else c.absorb (c.retry.resubmit now none)

def proceed (c : Client κ) (now : Nat) : Worker → Turn κ
  | .supervisor => c.attend now
  | .opening => c.look now
  | .waiter i => c.fetch now i
  | .replay => if c.canReplay then c.beginReplay now else c.quiet
  | .writer => c.signal (.writable none)

def isWanted (c : Client κ) : Bool :=
  match c.state, c.supervisor.phase with
  | .reconnecting, .idle => true
  | .closed, .stopped => false
  | .closed, _ => true
  | _, _ => false

def isDue (c : Client κ) : Bool :=
  match c.opening with
  | .waiting _ => c.state.isAlive || c.state == .closed
  | .found => true
  | _ => false

def next? (c : Client κ) : Option Worker :=
  if c.isWanted then some .supervisor
  else if c.isDue then some .opening
  else if !c.ended.isEmpty then some (.waiter 0)
  else if c.canReplay then some .replay
  else if !c.retry.pipeline.outbox.data.isEmpty then some .writer
  else none

inductive Event (κ : Type) where
  | dialed (result : Except ConnectionError Unit)
  | received (bytes : Bytes) (mishap : Option Pipeline.Mishap)
  | hungUp
  | broken (reason : String)
  | clock
  | execute (request : Request) (tag : κ)
  | close

def isShaking (c : Client κ) : Bool :=
  match c.supervisor.phase with
  | .shaking _ _ _ _ => true
  | _ => false

def tickDiscovery (c : Client κ) (now : Nat) : Turn κ :=
  match c.discovery.function, c.discovery.next with
  | some function, some time =>
    if time ≤ now then
      { c with discovery := { c.discovery with next := none } }.absorb
        (c.retry.submitPlain now none (Membership.request function) c.settings.operationTimeout
          .members)
    else c.quiet
  | _, _ => c.quiet

/-- Whoever opens the client wakes up when the time is over. -/
def tickOpening (c : Client κ) (now : Nat) : Turn κ :=
  match c.opening with
  | .waiting till => if till ≤ now then c.look now else c.quiet
  | _ => c.quiet

def tick (c : Client κ) (now : Nat) : Turn κ :=
  ((((c.signal (.clock now)).andThen fun c => c.absorb (c.retry.tick now)).andThen
    fun c => c.supervised now none (c.supervisor.tick now c.state)).andThen
    (·.tickDiscovery now)).andThen (·.tickOpening now)

def step (c : Client κ) (now : Nat) : Event κ → Turn κ
  | .dialed result => c.supervised now none (c.supervisor.dialed now result)
  | .received bytes mishap =>
    if c.isShaking then c.supervised now mishap (c.supervisor.received now bytes)
    else c.signal (.received bytes)
  | .hungUp =>
    if c.isShaking then c.supervised now none (c.supervisor.hungUp now) else c.signal .hungUp
  | .broken reason =>
    if c.isShaking then c.supervised now none (c.supervisor.broken now reason)
    else
      match c.retry.pipeline.socket with
      | some socket => c.signal (.broken socket.generation (.connection (.io reason)))
      | none => c.quiet
  | .clock => c.tick now
  | .execute request tag => c.execute now request tag
  | .close => c.shut (.connection (.closed "client closed"))

def open? (s : Settings) (now : Nat) : Except ClientError (Turn κ) :=
  if s.addresses.isEmpty then
    .error (.connection (.exhausted 0 "no addresses configured"))
  else .ok (start (create s now))

end Client
end TupleClient
