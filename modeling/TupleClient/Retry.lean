import TupleClient.Catalog.Refresh
import TupleClient.Pipeline
import TupleClient.Staged

/-!
Retries. An operation that fails for a reason that may pass is parked instead of ended, and sent
again once the connection is back. One that was refused for a stale schema waits for the catalog to
be read again first.
-/
namespace TupleClient

/-- An operation that is tried until it ends. The deadline holds for all tries together. -/
structure Retry.Entry (κ : Type) where
  id : Nat
  staged : Staged Request
  deadline : Option Nat
  tag : κ

/-- Whose submission an operation of the pipeline is: the try of an entry, or a plain one. -/
inductive Retry.Owner (κ : Type) where
  | entry (e : Retry.Entry κ)
  | plain (tag : κ)

/-- The parked entries, the reason for which nothing is parked any more, and how many replays are
called for and not begun. Names are looked up in the catalog, if there is one; `refreshes` says
whether stale requests wait for it to be read again. The numbers of entries have 64 bits, and no run
uses them all up. -/
structure Retry (κ : Type) where
  pipeline : Pipeline (Retry.Owner κ)
  catalog : Option Catalog.Cache
  refreshes : Bool
  parked : List (Retry.Entry κ)
  closed : Option ClientError
  nextEntry : Nat
  deadlines : Deadlines
  replays : Nat

namespace Retry

variable {κ : Type}

def create (settings : PipelineSettings) (catalog : Option Catalog.Cache) (refreshes : Bool) :
    Retry κ :=
  ⟨.create settings, catalog, refreshes, [], none, 1, .empty, 0⟩

def snapshot? (r : Retry κ) : Option Catalog.Snapshot := r.catalog.map (·.current)

def install (r : Retry κ) (s : Catalog.Snapshot) : Retry κ :=
  { r with catalog := r.catalog.map fun c => c.install s }

def callReplay (r : Retry κ) : Retry κ := { r with replays := r.replays + 1 }

def schedule (r : Retry κ) (e : Entry κ) : Retry κ :=
  match e.deadline with
  | some time => { r with deadlines := r.deadlines.schedule e.id time }
  | none => r

def unschedule (r : Retry κ) (e : Entry κ) : Retry κ :=
  match e.deadline with
  | some time => { r with deadlines := r.deadlines.cancel e.id time }
  | none => r

/-- Whether an error asks for the catalog to be read again before the next try. -/
def isStale (r : Retry κ) (e : ClientError) : Bool := r.refreshes && e.isWrongSchemaVersion

/-- Parks an entry after an error that may pass; once closed it ends with the reason of that. A
stale schema does not wait for another connection, and a connection error may have met with the
connection's return. -/
def park (r : Retry κ) (alive : Bool) (entry : Entry κ) (e : ClientError) : Retry κ × Report κ :=
  let stale := r.isStale e
  let entry := { entry with staged := (entry.staged.rearm stale).1 }
  match r.closed with
  | some reason => (r, .ended entry.tag (.error reason))
  | none =>
    let r := { r with parked := r.parked ++ [entry] }.schedule entry
    (if alive && (stale || e.isConnection) then r.callReplay else r, .silent)

def settle (r : Retry κ) (alive : Bool) (entry : Entry κ) (outcome : Outcome) :
    Retry κ × Report κ :=
  match outcome with
  | .ok response => (r, .ended entry.tag (.ok response))
  | .error e =>
    if e.isTransient then r.park alive entry e else (r, .ended entry.tag (.error e))

def closingReason (r : Retry κ) : ClientError :=
  r.pipeline.cell.terminal.getD (.connection (.closed "client closed"))

def failAll (r : Retry κ) : Retry κ × Report κ :=
  let reason := r.closingReason
  ({ r with closed := some reason, parked := [], deadlines := r.deadlines.stop },
    ⟨r.parked.map fun e => .ended e.tag (.error reason), [], false⟩)

/-- A state was entered: parked operations are sent again over a new connection, and end with the
client. -/
def entered (r : Retry κ) (s : Lifecycle.State) : Retry κ × Report κ :=
  match s with
  | .alive => (r.callReplay, .entered s)
  | .closed =>
    let (next, report) := r.failAll
    (next, (Report.entered s).andThen report)
  | _ => (r, .entered s)

/-- What happened in the pipeline, one thing after another; `alive` says whether the connection
lived before. -/
def follow (r : Retry κ) (alive : Bool) : List (Happening (Owner κ)) → Retry κ × Report κ
  | [] => (r, .silent)
  | .entered s :: rest =>
    let (next, report) := r.entered s
    let (done, more) := next.follow s.isAlive rest
    (done, report.andThen more)
  | .ended (.plain tag) outcome :: rest =>
    let (done, more) := r.follow alive rest
    (done, (Report.ended tag outcome).andThen more)
  | .ended (.entry e) outcome :: rest =>
    let (next, report) := r.settle alive e outcome
    let (done, more) := next.follow alive rest
    (done, report.andThen more)

def absorb (r : Retry κ) (step : Pipeline (Owner κ) × Report (Owner κ)) : Retry κ × Report κ :=
  let (next, report) := { r with pipeline := step.1 }.follow r.pipeline.state.isAlive
    step.2.happenings
  (next, { report with written := step.2.written, hungUp := step.2.hungUp })

def submitPlain (r : Retry κ) (now : Nat) (fault : Option String) (request : Request)
    (timeout : Option Nat) (tag : κ) : Retry κ × Report κ :=
  let (p, report, _) := r.pipeline.submit now fault
    ⟨request.type, request.message r.snapshot?, timeout, .plain tag⟩
  r.absorb (p, report)

/-- How much time is left: none if it is over. -/
def remaining (deadline : Option Nat) (now : Nat) : Option (Option Nat) :=
  match deadline with
  | none => some none
  | some time => if now < time then some (some (time - now)) else none

def submit (r : Retry κ) (now : Nat) (fault : Option String) (e : Entry κ) :
    Retry κ × Report κ :=
  match remaining e.deadline now with
  | none => (r, .ended e.tag (.error (.timeout .operation)))
  | some timeout =>
    match e.staged.send with
    | (_, none) => (r, .silent)
    | (staged, some request) =>
      let (p, report, _) := r.pipeline.submit now fault
        ⟨request.type, request.message r.snapshot?, timeout, .entry { e with staged := staged }⟩
      r.absorb (p, report)

def execute (r : Retry κ) (now : Nat) (fault : Option String) (request : Request)
    (timeout : Option Nat) (tag : κ) : Retry κ × Report κ × Nat :=
  let id := r.nextEntry
  let entry : Entry κ := ⟨id, .ready request, timeout.map (now + ·), tag⟩
  let (next, report) := { r with nextEntry := id + 1 }.submit now fault entry
  (next, report, id)

def isWaiting (e : Entry κ) : Bool := e.staged.stage == .waiting

def isReady (e : Entry κ) : Bool := e.staged.stage == .ready

def needsRefresh (r : Retry κ) : Bool := r.parked.any isWaiting

def failWaiting (r : Retry κ) (e : ClientError) : Retry κ × Report κ :=
  ({ r with parked := r.parked.filter (!isWaiting ·) },
    ⟨(r.parked.filter isWaiting).map fun w => .ended w.tag (.error e), [], false⟩)

def submitAll (r : Retry κ) (now : Nat) (fault : Option String) :
    List (Entry κ) → Retry κ × Report κ
  | [] => (r, .silent)
  | e :: es =>
    let (next, report) := (r.unschedule e).submit now fault e
    let (done, more) := next.submitAll now fault es
    (done, report.andThen more)

def resubmit (r : Retry κ) (now : Nat) (fault : Option String) : Retry κ × Report κ :=
  { r with parked := r.parked.filter (!isReady ·) }.submitAll now fault (r.parked.filter isReady)

/-- What waited for the catalog is ready. -/
def preflightDone (r : Retry κ) : Retry κ :=
  { r with parked := r.parked.map fun e => { e with staged := e.staged.preflightDone.1 } }

/-- A replay after the catalog was read again. If that failed nothing is sent, and if the failure is
not one that passes, what waited for the catalog ends. -/
def replayAfter (r : Retry κ) (now : Nat) (fault : Option String)
    (refreshed : Except ClientError Catalog.Snapshot) : Retry κ × Report κ :=
  match refreshed with
  | .ok s => (r.install s).preflightDone.resubmit now fault
  | .error e => if e.isTransient then (r, .silent) else r.failWaiting e

/-- One replay from beginning to end. `refreshed` is what a reading of the catalog would give; it is
read only if an entry waits for it. -/
def replay (r : Retry κ) (now : Nat) (fault : Option String)
    (refreshed : Except ClientError Catalog.Snapshot) : Retry κ × Report κ :=
  let r := { r with replays := r.replays - 1 }
  if r.needsRefresh then r.replayAfter now fault refreshed else r.resubmit now fault

def expire (r : Retry κ) (id : Nat) : Retry κ × Report κ :=
  match r.parked.find? (·.id == id) with
  | some e =>
    ({ r with parked := r.parked.filter (·.id != id) },
      .ended e.tag (.error (.timeout .operation)))
  | none => (r, .silent)

def expireAll (r : Retry κ) : List Nat → Retry κ × Report κ
  | [] => (r, .silent)
  | id :: ids =>
    let (next, report) := r.expire id
    let (done, more) := next.expireAll ids
    (done, report.andThen more)

def tick (r : Retry κ) (now : Nat) : Retry κ × Report κ :=
  match r.deadlines.service now with
  | (deadlines, ids) => { r with deadlines := deadlines }.expireAll ids

def signal (r : Retry κ) (s : Signal) : Retry κ × Report κ := r.absorb (r.pipeline.signal s)

/-- What comes to the retries. A replay is one event, or else what it does in the end comes as an
event of its own, after whatever has happened since it began. -/
inductive Event (κ : Type) where
  | execute (now : Nat) (fault : Option String) (request : Request) (timeout : Option Nat) (tag : κ)
  | plain (now : Nat) (fault : Option String) (request : Request) (timeout : Option Nat) (tag : κ)
  | signal (s : Signal)
  | clock (now : Nat)
  | expired (id : Nat)
  | replay (now : Nat) (fault : Option String) (refreshed : Except ClientError Catalog.Snapshot)
  | resubmit (now : Nat) (fault : Option String)
  | refreshed (now : Nat) (fault : Option String) (result : Except ClientError Catalog.Snapshot)

def step (r : Retry κ) : Event κ → Retry κ × Report κ
  | .execute now fault request timeout tag =>
    let (next, report, _) := r.execute now fault request timeout tag
    (next, report)
  | .plain now fault request timeout tag => r.submitPlain now fault request timeout tag
  | .signal s => r.signal s
  | .clock now => r.tick now
  | .expired id => r.expire id
  | .replay now fault refreshed => r.replay now fault refreshed
  | .resubmit now fault => r.resubmit now fault
  | .refreshed now fault result => r.replayAfter now fault result

def run (r : Retry κ) : List (Event κ) → Retry κ × Report κ
  | [] => (r, .silent)
  | e :: es =>
    let (next, report) := r.step e
    let (done, more) := next.run es
    (done, report.andThen more)

end Retry
end TupleClient
