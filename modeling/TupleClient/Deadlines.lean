/-!
Deadlines of operations, in the order in which they pass.
-/
namespace TupleClient

structure Deadline where
  time : Nat
  id : Nat
deriving DecidableEq

/-- Earlier first, and of one time the lower number first. -/
def Deadline.before (x y : Deadline) : Bool := x.time < y.time || (x.time == y.time && x.id < y.id)

structure Deadlines where
  entries : List Deadline
  running : Bool

namespace Deadlines

def empty : Deadlines := ⟨[], true⟩

def insertInto (d : Deadline) : List Deadline → List Deadline
  | [] => [d]
  | e :: es =>
    if d.before e then d :: e :: es else if d = e then e :: es else e :: insertInto d es

/-- What is scheduled twice is there once. -/
def schedule (ds : Deadlines) (id time : Nat) : Deadlines :=
  { ds with entries := insertInto ⟨time, id⟩ ds.entries }

def cancel (ds : Deadlines) (id time : Nat) : Deadlines :=
  { ds with entries := ds.entries.filter (· != ⟨time, id⟩) }

def stop (_ds : Deadlines) : Deadlines := ⟨[], false⟩

def service (ds : Deadlines) (now : Nat) : Deadlines × List Nat :=
  if ds.running then
    ({ ds with entries := ds.entries.filter (now < ·.time) },
      (ds.entries.filter (·.time ≤ now)).map (·.id))
  else (ds, [])

end Deadlines
end TupleClient
