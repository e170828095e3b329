import TupleClient.Response

/-!
The outcome of an operation, given once and taken once.
-/
namespace TupleClient

abbrev Outcome := Except ClientError Response

inductive Promise.State where
  | pending
  | kept (outcome : Outcome)
  | taken

/-- `waker` is whoever asked last and found nothing. -/
structure Promise (ω : Type) where
  state : Promise.State
  waker : Option ω

namespace Promise

variable {ω : Type}

def unkept : Promise ω := ⟨.pending, none⟩

def isDone (p : Promise ω) : Bool :=
  match p.state with
  | .pending => false
  | _ => true

/-- Gives the outcome and wakes the one who waits for it. Only the first outcome counts. -/
def complete (p : Promise ω) (outcome : Outcome) : Promise ω × Bool × Option ω :=
  match p.state with
  | .pending => (⟨.kept outcome, none⟩, true, p.waker)
  | _ => (p, false, none)

def kept (outcome : Outcome) : Promise ω := ⟨.kept outcome, none⟩

def alreadyTaken : ClientError := .connection (.violation "result already taken")

def take? (p : Promise ω) : Promise ω × Option Outcome :=
  match p.state with
  | .pending => (p, none)
  | .kept outcome => ({ p with state := .taken }, some outcome)
  | .taken => (p, some (.error alreadyTaken))

/-- Takes the outcome, or leaves word whom to wake. -/
def poll (p : Promise ω) (waker : ω) : Promise ω × Option Outcome :=
  match p.take? with
  | (p, some outcome) => (p, some outcome)
  | (p, none) => ({ p with waker := some waker }, none)

end Promise

structure Handle (ω : Type) where
  id : Nat
  promise : Promise ω

def Handle.failed {ω : Type} (e : ClientError) : Handle ω := ⟨0, .kept (.error e)⟩

def Handle.describe {ω : Type} (h : Handle ω) : String :=
  s!"ResponseHandle \x7b id: {h.id}, done: {h.promise.isDone} \x7d"

end TupleClient
