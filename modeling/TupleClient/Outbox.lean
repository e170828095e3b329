import TupleClient.Decimal.Product
import TupleClient.Error

/-!
Frames that wait for the writer: appended whole, taken all at once, and never more than there is
room for.
-/
namespace TupleClient

/-- Frames longer than `threshold` do not wait here. -/
structure Outbox where
  capacity : Nat
  threshold : Nat
  isOpen : Bool
  data : Bytes
  threshold_le : threshold ≤ capacity

namespace Outbox

/-- The threshold is the given fraction of the capacity. -/
def create (capacity : Nat) (factor : UInt64) : Outbox :=
  let room := max capacity 1
  ⟨room, min (Decimal.fractionOf room room factor) room, false, [], Nat.min_le_right ..⟩

def isDirect (o : Outbox) (length : Nat) : Bool := o.threshold < length

def opened (o : Outbox) : Outbox := { o with isOpen := true, data := [] }

def closed (o : Outbox) : Outbox := { o with isOpen := false, data := [] }

def push (o : Outbox) (frame : Bytes) : Except ClientError Outbox :=
  if !o.isOpen then .error (.connection .notConnected)
  else if o.data.length + frame.length ≤ o.capacity then .ok { o with data := o.data ++ frame }
  else .error (.timeout .write)

theorem push_of_open {o : Outbox} (h : o.isOpen = true) (frame : Bytes) :
    o.push frame =
      if o.data.length + frame.length ≤ o.capacity then .ok { o with data := o.data ++ frame }
      else .error (.timeout .write) := by
  simp [push, h]

theorem push_of_shut {o : Outbox} (h : o.isOpen = false) (frame : Bytes) :
    o.push frame = .error (.connection .notConnected) := by
  simp [push, h]

def take (o : Outbox) : Outbox × Option Bytes :=
  if o.isOpen then ({ o with data := [] }, some o.data) else (o, none)

theorem take_of_open {o : Outbox} (h : o.isOpen = true) :
    o.take = ({ o with data := [] }, some o.data) := by
  simp [take, h]

theorem take_of_shut {o : Outbox} (h : o.isOpen = false) : o.take = (o, none) := by
  simp [take, h]

end Outbox
end TupleClient
