import TupleClient.Value
import TupleClient.Wire.Error
import TupleClient.Wire.Form

/-!
Reading values, in any form that the wire format allows.
-/
namespace TupleClient.Wire

/-- A value lies in at most this many arrays and maps. -/
def maxDepth : Nat := 512

def take (n : Nat) (bs : Bytes) : Except CodecError (Bytes × Bytes) :=
  match Bytes.split? n bs with
  | some parts => .ok parts
  | none => .error (.truncated n bs.length)

def ensure (n : Nat) (bs : Bytes) : Except CodecError Unit :=
  if bs.hasAtLeast n then .ok () else .error (.truncated n bs.length)

def readNat (width : Nat) (bs : Bytes) : Except CodecError (Nat × Bytes) := do
  let (field, rest) ← take width bs
  .ok (field.toNat, rest)

def readLength : Length → Bytes → Except CodecError (Nat × Bytes)
  | .fixed n, bs => .ok (n, bs)
  | .field width, bs => readNat width bs

def readSized (length : Length) (bs : Bytes) : Except CodecError (Bytes × Bytes) := do
  let (n, rest) ← readLength length bs
  take n rest

def readText (length : Length) (bs : Bytes) : Except CodecError (Value × Bytes) := do
  let (raw, rest) ← readSized length bs
  match raw.toText? with
  | some s => .ok (.text s, rest)
  | none => .error .invalidText

/-- The length, one byte for the subtype, and the data. -/
def readExt (length : Length) (bs : Bytes) : Except CodecError (Value × Bytes) := do
  let (n, rest) ← readLength length bs
  let (subtype, rest) ← readNat 1 rest
  let (data, rest) ← take n rest
  .ok (extension (UInt8.ofNat subtype).toInt8 data, rest)

/-- `n` values one after another, behind the `items` that were read, the last one first. -/
def readItems (readOne : Bytes → Except CodecError (Value × Bytes)) :
    (n : Nat) → (items : List Value) → Bytes → Except CodecError (List Value × Bytes)
  | 0, items, bs => .ok (items.reverse, bs)
  | n + 1, items, bs => do
    let (v, rest) ← readOne bs
    readItems readOne n (v :: items) rest

def readEntries (readOne : Bytes → Except CodecError (Value × Bytes)) :
    (n : Nat) → (entries : List (Value × Value)) → Bytes →
      Except CodecError (List (Value × Value) × Bytes)
  | 0, entries, bs => .ok (entries.reverse, bs)
  | n + 1, entries, bs => do
    let (k, rest) ← readOne bs
    let (v, rest) ← readOne rest
    readEntries readOne n ((k, v) :: entries) rest

/-- Reads a value that may have `levels - 1` levels of arrays and maps in it. Each element takes at
least one byte, so a length that more bytes than there are would have to follow is refused before
the elements are read. -/
def readValue : (levels : Nat) → Bytes → Except CodecError (Value × Bytes)
  | 0, _ => .error (.tooDeep maxDepth)
  | _ + 1, [] => .error (.truncated 1 0)
  | levels + 1, b :: bs =>
    match Form.ofByte b with
    | .constant v => .ok (v, bs)
    | .unsigned width => do
      let (field, rest) ← take width bs
      .ok (.int field.toNat, rest)
    | .signed width => do
      let (field, rest) ← take width bs
      .ok (.int field.toInt, rest)
    | .float32 => do
      let (n, rest) ← readNat 4 bs
      .ok (.float32 (UInt32.ofNat n), rest)
    | .float64 => do
      let (n, rest) ← readNat 8 bs
      .ok (.float64 (UInt64.ofNat n), rest)
    | .text length => readText length bs
    | .binary length => do
      let (data, rest) ← readSized length bs
      .ok (.binary data, rest)
    | .array length => do
      let (n, rest) ← readLength length bs
      ensure n rest
      let (items, rest) ← readItems (readValue levels) n [] rest
      .ok (.array items, rest)
    | .map length => do
      let (n, rest) ← readLength length bs
      ensure (2 * n) rest
      let (entries, rest) ← readEntries (readValue levels) n [] rest
      .ok (.map entries, rest)
    | .ext length => readExt length bs
    | .reserved => .error (.invalidMarker b)

def read (bs : Bytes) : Except CodecError (Value × Bytes) := readValue (maxDepth + 1) bs

/-- The first value and the number of bytes it takes. -/
def decode (bs : Bytes) : Except CodecError (Value × Nat) := do
  let (v, rest) ← read bs
  .ok (v, bs.length - rest.length)

structure Cursor where
  position : Nat
  rest : Bytes

namespace Cursor

def start (bs : Bytes) : Cursor := ⟨0, bs⟩

def next (c : Cursor) : Except CodecError (Value × Cursor) := do
  let (v, rest) ← read c.rest
  .ok (v, ⟨c.position + (c.rest.length - rest.length), rest⟩)

/-- Up to `limit` values behind the ones already `seen`, which are kept in reverse; each with the
cursor behind it. If an error ends them, it comes last. -/
def values : (limit : Nat) → (seen : List (Value × Cursor)) → Cursor →
    List (Value × Cursor) × Option CodecError
  | 0, seen, _ => (seen.reverse, none)
  | limit + 1, seen, c =>
    if c.rest.isEmpty then (seen.reverse, none)
    else
      match c.next with
      | .ok (v, c') => values limit ((v, c') :: seen) c'
      | .error e => (seen.reverse, some e)

end Cursor

/-- All values up to the end of the input or the first error. A value takes at least one byte, so
there are no more of them than bytes. -/
def decodeAll (bs : Bytes) : List (Value × Cursor) × Option CodecError :=
  (Cursor.start bs).values bs.length []

end TupleClient.Wire
