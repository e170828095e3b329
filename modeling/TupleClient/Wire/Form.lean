import TupleClient.Value

/-!
The first byte of a value on the wire says which form the rest has.
-/
namespace TupleClient.Wire

/-- A length in the first byte itself, or in a field of `width` bytes behind it. -/
inductive Length where
  | fixed (n : Nat)
  | field (width : Nat)

inductive Form where
  | constant (v : Value)
  | unsigned (width : Nat)
  | signed (width : Nat)
  | float32
  | float64
  | text (length : Length)
  | binary (length : Length)
  | array (length : Length)
  | map (length : Length)
  | ext (length : Length)
  | reserved

/-- Small numbers and lengths stand in the first byte; of the bytes from `c0` to `df` each has a
form of its own, and `c1` has none. -/
def Form.ofByte (b : UInt8) : Form :=
  let n := b.toNat
  if n < 0x80 then .constant (.int n)
  else if n < 0x90 then .map (.fixed (n - 0x80))
  else if n < 0xa0 then .array (.fixed (n - 0x90))
  else if n < 0xc0 then .text (.fixed (n - 0xa0))
  else if 0xe0 ≤ n then .constant (.int ((n : Int) - 0x100))
  else
    match n - 0xc0 with
    | 0x00 => .constant .nil
    | 0x02 => .constant (.bool false)
    | 0x03 => .constant (.bool true)
    | 0x04 => .binary (.field 1)
    | 0x05 => .binary (.field 2)
    | 0x06 => .binary (.field 4)
    | 0x07 => .ext (.field 1)
    | 0x08 => .ext (.field 2)
    | 0x09 => .ext (.field 4)
    | 0x0a => .float32
    | 0x0b => .float64
    | 0x0c => .unsigned 1
    | 0x0d => .unsigned 2
    | 0x0e => .unsigned 4
    | 0x0f => .unsigned 8
    | 0x10 => .signed 1
    | 0x11 => .signed 2
    | 0x12 => .signed 4
    | 0x13 => .signed 8
    | 0x14 => .ext (.fixed 1)
    | 0x15 => .ext (.fixed 2)
    | 0x16 => .ext (.fixed 4)
    | 0x17 => .ext (.fixed 8)
    | 0x18 => .ext (.fixed 16)
    | 0x19 => .text (.field 1)
    | 0x1a => .text (.field 2)
    | 0x1b => .text (.field 4)
    | 0x1c => .array (.field 2)
    | 0x1d => .array (.field 4)
    | 0x1e => .map (.field 2)
    | 0x1f => .map (.field 4)
    | _ => .reserved

def uuidSubtype : Int8 := 2

def extension (subtype : Int8) (data : Bytes) : Value :=
  if subtype = uuidSubtype then
    match Uuid.ofBytes? data with
    | some u => .uuid u
    | none => .ext subtype data
  else .ext subtype data

end TupleClient.Wire
