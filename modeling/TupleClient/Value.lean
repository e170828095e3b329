import TupleClient.Uuid

/-!
Self-describing values, the only data that messages carry, and the views of them that the rest of
the library reads.
-/
namespace TupleClient

/-- Integers are unbounded here; only those that fit a signed or an unsigned 64-bit word have a
wire form. Floating-point numbers are kept as their bits, so that payloads of not-a-numbers
survive. A map is a list of entries in the order they came, equal keys included. -/
inductive Value where
  | nil
  | bool (b : Bool)
  | int (i : Int)
  | float32 (bits : UInt32)
  | float64 (bits : UInt64)
  | text (s : String)
  | binary (bytes : Bytes)
  | array (items : List Value)
  | map (entries : List (Value × Value))
  | uuid (id : Uuid)
  | ext (subtype : Int8) (data : Bytes)

instance : Inhabited Value := ⟨.nil⟩

def minSigned64 : Int := -9223372036854775808

def maxSigned64 : Int := 9223372036854775807

def maxUnsigned64 : Int := 18446744073709551615

def maxUnsigned32 : Nat := 4294967295

namespace Value

def ofNat (n : Nat) : Value := .int n

def isNil : Value → Bool
  | .nil => true
  | _ => false

def int64? : Value → Option Int
  | .int i => if minSigned64 ≤ i ∧ i ≤ maxSigned64 then some i else none
  | _ => none

def nat64? : Value → Option Nat
  | .int i => if 0 ≤ i ∧ i ≤ maxUnsigned64 then some i.toNat else none
  | _ => none

def nat32? (v : Value) : Option Nat :=
  match v.nat64? with
  | some n => if n ≤ maxUnsigned32 then some n else none
  | none => none

def byte? (v : Value) : Option UInt8 :=
  match v.nat64? with
  | some n => if n < 256 then some (UInt8.ofNat n) else none
  | none => none

def bool? : Value → Option Bool
  | .bool b => some b
  | _ => none

def text? : Value → Option String
  | .text s => some s
  | _ => none

def binary? : Value → Option Bytes
  | .binary bs => some bs
  | _ => none

def array? : Value → Option (List Value)
  | .array items => some items
  | _ => none

def map? : Value → Option (List (Value × Value))
  | .map entries => some entries
  | _ => none

def findEntry? (test : Value → Bool) : List (Value × Value) → Option Value
  | [] => none
  | (k, v) :: rest => if test k then some v else findEntry? test rest

def get? (v : Value) (key : String) : Option Value :=
  match v with
  | .map entries => findEntry? (fun k => k.text? == some key) entries
  | _ => none

def getNat? (entries : List (Value × Value)) (key : Nat) : Option Value :=
  findEntry? (fun k => k.nat64? == some key) entries

mutual
/-- How many arrays and maps lie around the innermost part of a value: 0 for a scalar. -/
def depth : Value → Nat
  | .array items => 1 + depthItems 0 items
  | .map entries => 1 + depthEntries 0 entries
  | _ => 0
def depthItems (deepest : Nat) : List Value → Nat
  | [] => deepest
  | v :: vs => depthItems (max deepest v.depth) vs
def depthEntries (deepest : Nat) : List (Value × Value) → Nat
  | [] => deepest
  | (k, v) :: es => depthEntries (max (max deepest k.depth) v.depth) es
end

end Value
end TupleClient
