import TupleClient.Error

/-!
Where to connect next.
-/
namespace TupleClient

/-- What is asked for an address before each attempt to connect: it is told how many attempts have
failed in a row, and how the last one did. -/
class AddressSource (α : Type) where
  next : α → UInt32 → Option ClientError → α × Option String

/-- Either always the same address, or one after another from a list that can be replaced. -/
inductive Addresses where
  | single (address : String)
  | rotating (list : List String) (cursor : Nat)
deriving DecidableEq

namespace Addresses

def ofList (list : List String) : Addresses := .rotating list 0

/-- The cursor is a word of 64 bits. -/
def advance (cursor : Nat) : Nat := (cursor + 1) % 18446744073709551616

def next (a : Addresses) : Addresses × Option String :=
  match a with
  | .single address => (a, some address)
  | .rotating [] _ => (a, none)
  | .rotating list cursor => (.rotating list (advance cursor), list[cursor % list.length]?)

/-- Puts another list in place and starts over with it. A single address stays. -/
def refresh (a : Addresses) (members : List String) : Addresses :=
  match a with
  | .single address => .single address
  | .rotating _ _ => .rotating members 0

def list : Addresses → List String
  | .single address => [address]
  | .rotating list _ => list

/-- It does not matter what has failed before. -/
instance : AddressSource Addresses := ⟨fun a _ _ => a.next⟩

end Addresses
end TupleClient
