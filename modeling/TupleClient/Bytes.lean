/-!
Byte strings, and numbers written in them with the most significant byte first.
-/
namespace TupleClient

abbrev Bytes := List UInt8

namespace Bytes

/-- As many numbers as `width` bytes can tell apart. -/
def limit (width : Nat) : Nat := Nat.pow 256 width

/-- The last `width` base-256 digits of `n`, most significant first. -/
def ofNat : (width : Nat) → (n : Nat) → Bytes
  | 0, _ => []
  | width + 1, n => UInt8.ofNat (n / limit width) :: ofNat width n

def toNatFrom (high : Nat) : Bytes → Nat
  | [] => high
  | b :: bs => toNatFrom (256 * high + b.toNat) bs

/-- The number whose base-256 digits are the given bytes, most significant first. -/
def toNat (bs : Bytes) : Nat := toNatFrom 0 bs

/-- Two's complement in `width` bytes. -/
def ofInt (width : Nat) (i : Int) : Bytes := ofNat width (i % (limit width : Int)).toNat

def toInt (bs : Bytes) : Int :=
  if 2 * bs.toNat < limit bs.length then bs.toNat else (bs.toNat : Int) - limit bs.length

@[simp] theorem length_ofNat (width n : Nat) : (ofNat width n).length = width := by
  induction width with
  | zero => rfl
  | succ width ih => simp [ofNat, ih]

@[simp] theorem length_ofInt (width : Nat) (i : Int) : (ofInt width i).length = width := by
  simp [ofInt]

def split? : (n : Nat) → Bytes → Option (Bytes × Bytes)
  | n, bs => go n bs []
where
  go : Nat → Bytes → Bytes → Option (Bytes × Bytes)
    | 0, bs, taken => some (taken.reverse, bs)
    | _ + 1, [], _ => none
    | n + 1, b :: bs, taken => go n bs (b :: taken)

theorem split?_go (n : Nat) (bs taken : Bytes) :
    split?.go n bs taken =
      if n ≤ bs.length then some (taken.reverse ++ bs.take n, bs.drop n) else none := by
  induction n generalizing bs taken with
  | zero => simp [split?.go]
  | succ n ih =>
    cases bs with
    | nil => simp [split?.go]
    | cons b bs => simp [split?.go, ih]

theorem split?_eq (n : Nat) (bs : Bytes) :
    split? n bs = if n ≤ bs.length then some (bs.take n, bs.drop n) else none := by
  simp [split?, split?_go]

/-- Whether at least `n` bytes are there; looks at no more than `n` of them. -/
def hasAtLeast : (n : Nat) → Bytes → Bool
  | 0, _ => true
  | _ + 1, [] => false
  | n + 1, _ :: bs => hasAtLeast n bs

theorem hasAtLeast_eq (n : Nat) (bs : Bytes) : hasAtLeast n bs = decide (n ≤ bs.length) := by
  induction n generalizing bs with
  | zero => simp [hasAtLeast]
  | succ n ih =>
    cases bs with
    | nil => simp [hasAtLeast]
    | cons b bs => simp [hasAtLeast, ih]

def ofText (s : String) : Bytes := s.toUTF8.data.toList

def toText? (bs : Bytes) : Option String := String.fromUTF8? ⟨bs.toArray⟩

theorem toText?_ofText (s : String) : toText? (ofText s) = some s := by
  have h : (⟨(ofText s).toArray⟩ : ByteArray) = s.toUTF8 := by simp [ofText]
  simp only [toText?, String.fromUTF8?, h]
  split
  · rfl
  · rename_i hn; exact absurd s.isValidUTF8 hn

def hexDigit (n : Nat) : Char := Nat.digitChar n

def hexByte (b : UInt8) : List Char := [hexDigit (b.toNat / 16), hexDigit (b.toNat % 16)]

def hex (bs : Bytes) : String :=
  bs.foldl (fun out b => (hexByte b).foldl String.push out) ""

def hexValue? (c : Char) : Option Nat :=
  if '0' ≤ c ∧ c ≤ '9' then some (c.toNat - '0'.toNat)
  else if 'a' ≤ c ∧ c ≤ 'f' then some (c.toNat - 'a'.toNat + 10)
  else if 'A' ≤ c ∧ c ≤ 'F' then some (c.toNat - 'A'.toNat + 10)
  else none

def ofHexFrom (read : Bytes) : List Char → Option Bytes
  | [] => some read.reverse
  | [_] => none
  | c :: d :: cs =>
    match hexValue? c, hexValue? d with
    | some x, some y => ofHexFrom (UInt8.ofNat (16 * x + y) :: read) cs
    | _, _ => none

/-- Reads pairs of digits in base 16, in either case. -/
def ofHex? (cs : List Char) : Option Bytes := ofHexFrom [] cs

end Bytes
end TupleClient
