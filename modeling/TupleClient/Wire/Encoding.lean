import TupleClient.Value
import TupleClient.Wire.Error
import TupleClient.Wire.Form

/-!
Writing values: each in the shortest form that holds it, numbers with the most significant byte
first.
-/
namespace TupleClient.Wire

/-- Numbers that are not negative take an unsigned form, negative ones a signed form. -/
def intBytes (i : Int) : Except CodecError Bytes :=
  if i < minSigned64 ∨ maxUnsigned64 < i then .error (.integerOutOfRange i)
  else if 0 ≤ i then
    .ok (if i < 0x80 then Bytes.ofInt 1 i
      else if i < 0x100 then 0xcc :: Bytes.ofInt 1 i
      else if i < 0x10000 then 0xcd :: Bytes.ofInt 2 i
      else if i < 0x100000000 then 0xce :: Bytes.ofInt 4 i
      else 0xcf :: Bytes.ofInt 8 i)
  else
    .ok (if -0x20 ≤ i then Bytes.ofInt 1 i
      else if -0x80 ≤ i then 0xd0 :: Bytes.ofInt 1 i
      else if -0x8000 ≤ i then 0xd1 :: Bytes.ofInt 2 i
      else if -0x80000000 ≤ i then 0xd2 :: Bytes.ofInt 4 i
      else 0xd3 :: Bytes.ofInt 8 i)

def longHead (what : Sized) (marker : UInt8) (n : Nat) : Except CodecError Bytes :=
  if n ≤ maxUnsigned32 then .ok (marker :: Bytes.ofNat 4 n) else .error (.lengthOverflow what n)

def textHead (n : Nat) : Except CodecError Bytes :=
  if n < 32 then .ok [UInt8.ofNat (0xa0 + n)]
  else if n < 0x100 then .ok (0xd9 :: Bytes.ofNat 1 n)
  else if n < 0x10000 then .ok (0xda :: Bytes.ofNat 2 n)
  else longHead .text 0xdb n

def binaryHead (n : Nat) : Except CodecError Bytes :=
  if n < 0x100 then .ok (0xc4 :: Bytes.ofNat 1 n)
  else if n < 0x10000 then .ok (0xc5 :: Bytes.ofNat 2 n)
  else longHead .binary 0xc6 n

def arrayHead (n : Nat) : Except CodecError Bytes :=
  if n < 16 then .ok [UInt8.ofNat (0x90 + n)]
  else if n < 0x10000 then .ok (0xdc :: Bytes.ofNat 2 n)
  else longHead .array 0xdd n

def mapHead (n : Nat) : Except CodecError Bytes :=
  if n < 16 then .ok [UInt8.ofNat (0x80 + n)]
  else if n < 0x10000 then .ok (0xde :: Bytes.ofNat 2 n)
  else longHead .map 0xdf n

/-- Lengths of 1, 2, 4, 8 and 16 have markers of their own. -/
def extHead (n : Nat) : Except CodecError Bytes :=
  if n = 1 then .ok [0xd4]
  else if n = 2 then .ok [0xd5]
  else if n = 4 then .ok [0xd6]
  else if n = 8 then .ok [0xd7]
  else if n = 16 then .ok [0xd8]
  else if n < 0x100 then .ok (0xc7 :: Bytes.ofNat 1 n)
  else if n < 0x10000 then .ok (0xc8 :: Bytes.ofNat 2 n)
  else longHead .ext 0xc9 n

def extBytes (subtype : Int8) (data : Bytes) : Except CodecError Bytes := do
  let head ← extHead data.length
  .ok (head ++ subtype.toUInt8 :: data)

mutual
/-- Appends a value. An array or a map is its length and then its parts in order, each key before
its value; what is met first in that order and cannot be written is the error. -/
def encodeOnto (out : Array UInt8) : Value → Except CodecError (Array UInt8)
  | .nil => .ok (out.push 0xc0)
  | .bool b => .ok (out.push (if b then 0xc3 else 0xc2))
  | .int i => do
    let bytes ← intBytes i
    .ok (out ++ bytes)
  | .float32 bits => .ok (out ++ (0xca :: Bytes.ofNat 4 bits.toNat))
  | .float64 bits => .ok (out ++ (0xcb :: Bytes.ofNat 8 bits.toNat))
  | .text s => do
    let head ← textHead s.utf8ByteSize
    .ok (out ++ head ++ Bytes.ofText s)
  | .binary bs => do
    let head ← binaryHead bs.length
    .ok (out ++ head ++ bs)
  | .array items => do
    let head ← arrayHead items.length
    encodeItemsOnto (out ++ head) items
  | .map entries => do
    let head ← mapHead entries.length
    encodeEntriesOnto (out ++ head) entries
  | .uuid u => do
    let bytes ← extBytes uuidSubtype u.bytes
    .ok (out ++ bytes)
  | .ext subtype data => do
    let bytes ← extBytes subtype data
    .ok (out ++ bytes)
def encodeItemsOnto (out : Array UInt8) : List Value → Except CodecError (Array UInt8)
  | [] => .ok out
  | v :: vs => do
    let longer ← encodeOnto out v
    encodeItemsOnto longer vs
def encodeEntriesOnto (out : Array UInt8) : List (Value × Value) → Except CodecError (Array UInt8)
  | [] => .ok out
  | (k, v) :: es => do
    let withKey ← encodeOnto out k
    let longer ← encodeOnto withKey v
    encodeEntriesOnto longer es
end

def encode (v : Value) : Except CodecError Bytes := (encodeOnto #[] v).map Array.toList

def append (buffer : Array UInt8) (v : Value) : Array UInt8 × Except CodecError Unit :=
  match encodeOnto buffer v with
  | .ok longer => (longer, .ok ())
  | .error e => (buffer, .error e)

end TupleClient.Wire
