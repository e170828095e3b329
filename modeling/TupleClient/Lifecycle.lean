import TupleClient.Error

/-!
The life of the one connection: which states follow which, and the cell that holds the state, the
number of the connection, and the error that operations meet while there is none.
-/
namespace TupleClient.Lifecycle

/-- In `reading` and `writing` one of the two loops of a connection runs, in `alive` both. -/
inductive State where
  | uninitialized
  | reconnecting
  | connecting
  | reading
  | writing
  | alive
  | closed
deriving DecidableEq

namespace State

def name : State → String
  | uninitialized => "Uninitialized"
  | reconnecting => "Reconnecting"
  | connecting => "Connecting"
  | reading => "Reading"
  | writing => "Writing"
  | alive => "Alive"
  | closed => "Closed"

def all : List State :=
  [uninitialized, reconnecting, connecting, reading, writing, alive, closed]

def canBecome : State → State → Bool
  | uninitialized, reconnecting => true
  | reconnecting, connecting => true
  | connecting, reading => true
  | connecting, writing => true
  | connecting, reconnecting => true
  | reading, alive => true
  | reading, reconnecting => true
  | writing, alive => true
  | writing, reconnecting => true
  | alive, reconnecting => true
  | closed, closed => false
  | _, closed => true
  | _, _ => false

def isAlive (s : State) : Bool := s == alive

def hasConnection (s : State) : Bool := s == reading || s == writing || s == alive

end State

inductive Loop where
  | reader
  | writer
deriving DecidableEq

/-- Where the start of a loop leads: the first one half way, the other one to `alive`. -/
def State.afterStart : State → Loop → Option State
  | .connecting, .reader => some .reading
  | .connecting, .writer => some .writing
  | .writing, .reader => some .alive
  | .reading, .writer => some .alive
  | _, _ => none

/-- `heard` has for each listener the states it was told since it came, the first one first. The
`generation` is the number of the latest connection, one of 64 bits of which no run uses up all. -/
structure Cell where
  state : State
  generation : Nat
  terminal : Option ClientError
  heard : List (List State)

namespace Cell

def initial : Cell := ⟨.uninitialized, 0, some (.connection .notConnected), []⟩

def subscribe (c : Cell) : Cell := { c with heard := c.heard ++ [[]] }

def enter (c : Cell) (s : State) (terminal : Option ClientError) : Cell :=
  { c with state := s, terminal := terminal, heard := c.heard.map (· ++ [s]) }

def transition (c : Cell) (source target : State) : Cell × Bool :=
  if c.state = source ∧ source.canBecome target then (c.enter target c.terminal, true)
  else (c, false)

/-- The number of a new connection, which only `connecting` gives. -/
def begin (c : Cell) : Cell × Option Nat :=
  if c.state = .connecting then
    ({ c with generation := c.generation + 1 }, some (c.generation + 1))
  else (c, none)

/-- A loop of a connection runs. Once both do, operations meet no error any more. -/
def loopStarted (c : Cell) (generation : Nat) (loop : Loop) : Cell × Bool :=
  if c.generation = generation then
    match c.state.afterStart loop with
    | some s => (c.enter s (if s.isAlive then none else c.terminal), true)
    | none => (c, false)
  else (c, false)

/-- A connection broke. Reports on another than the current one do not count. -/
def fail (c : Cell) (generation : Nat) (e : ClientError) : Cell × Bool :=
  if c.generation = generation ∧ c.state.canBecome .reconnecting ∧ c.state ≠ .uninitialized then
    (c.enter .reconnecting (some e), true)
  else (c, false)

def close (c : Cell) (reason : ClientError) : Cell × Bool :=
  if c.state = .closed then (c, false) else (c.enter .closed (some reason), true)

end Cell
end TupleClient.Lifecycle
