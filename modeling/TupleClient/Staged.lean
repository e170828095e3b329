/-!
Requests that may have to wait for another one before they are sent.
-/
namespace TupleClient

inductive Stage where
  | waiting
  | ready
  | sent
deriving DecidableEq

def Stage.name : Stage → String
  | .waiting => "WaitingOnPreflight"
  | .ready => "Ready"
  | .sent => "Sent"

structure Staged (α : Type) where
  request : α
  stage : Stage

namespace Staged

variable {α : Type}

def ready (request : α) : Staged α := ⟨request, .ready⟩

def afterPreflight (request : α) : Staged α := ⟨request, .waiting⟩

def advance (s : Staged α) (source target : Stage) : Staged α × Bool :=
  if s.stage = source then ({ s with stage := target }, true) else (s, false)

def preflightDone (s : Staged α) : Staged α × Bool := s.advance .waiting .ready

/-- A sent request goes another round, with or without waiting. -/
def rearm (s : Staged α) (preflight : Bool) : Staged α × Bool :=
  s.advance .sent (if preflight then .waiting else .ready)

def send (s : Staged α) : Staged α × Option α :=
  match s.advance .ready .sent with
  | (s, true) => (s, some s.request)
  | (s, false) => (s, none)

end Staged
end TupleClient
