import TupleClient.Message
import TupleClient.Value.Display
import TupleClient.Wire.Decoding
import TupleClient.Wire.Encoding

/-!
Frames: a message on the wire is the length of its payload and the payload, a map for the header
and a map for the body.
-/
namespace TupleClient.Frame

open Wire

/-- The map that a message part is, with small numbers for keys. A later entry replaces an earlier
one. -/
def fieldsOfEntries : List (Value × Value) → Fields → Except CodecError Fields
  | [], f => .ok f
  | (k, v) :: rest, f =>
    match k.byte? with
    | some key => fieldsOfEntries rest (f.insert key v)
    | none => .error (.unexpected "small integer key" k.display)

def fieldsOfValue (v : Value) : Except CodecError Fields :=
  match v with
  | .map entries => fieldsOfEntries entries .empty
  | v => .error (.unexpected "map" v.display)

/-- The payload of a message: both maps, the body's also where it is empty. -/
def encodePayload (m : Message) : Except CodecError (Array UInt8) := do
  let header ← encodeOnto #[] m.header.toValue
  encodeOnto header m.body.toValue

def encode (m : Message) : Except CodecError Bytes := do
  let payload ← encodePayload m
  let head ← longHead .frame 0xce payload.size
  .ok (head ++ payload.toList)

/-- Reads both maps of a payload; the body may be missing, and nothing may follow. -/
def decodePayload (payload : Bytes) : Except CodecError Message := do
  let (first, rest) ← read payload
  let header ← fieldsOfValue first
  if rest.isEmpty then .ok ⟨header, .empty⟩
  else
    let (second, rest) ← read rest
    let body ← fieldsOfValue second
    if rest.isEmpty then .ok ⟨header, body⟩
    else .error (.lengthMismatch payload.length (payload.length - rest.length))

/-- Reads the frame at the start of the bytes and says how many bytes it takes. The length may have
any form that is a number. -/
def decode (bs : Bytes) : Except CodecError (Message × Nat) := do
  let (length, rest) ← read bs
  match length.nat64? with
  | none => .error (.unexpected "unsigned frame length" "other")
  | some n =>
    let (payload, rest) ← take n rest
    let m ← decodePayload payload
    .ok (m, bs.length - rest.length)

/-- What a stream gives. A malformed frame is passed over where its length is known. -/
inductive Outcome where
  | message (m : Message) (rest : Bytes)
  | malformed (e : CodecError) (rest : Bytes)
  | incomplete

def receivePayload (limit n : Nat) (bs : Bytes) : Outcome :=
  if limit < n then .malformed (.frameTooLarge n limit) bs
  else
    match Bytes.split? n bs with
    | none => .incomplete
    | some (payload, rest) =>
      match decodePayload payload with
      | .ok m => .message m rest
      | .error e => .malformed e rest

/-- Takes one frame off a stream. Its length is an unsigned number on the wire; any other first
byte is passed over. -/
def receive (limit : Nat) : Bytes → Outcome
  | [] => .incomplete
  | b :: bs =>
    match Form.ofByte b with
    | .constant (.int n) =>
      if 0 ≤ n then receivePayload limit n.toNat bs else .malformed (.invalidMarker b) bs
    | .unsigned width =>
      match Bytes.split? width bs with
      | some (field, rest) => receivePayload limit field.toNat rest
      | none => .incomplete
    | _ => .malformed (.invalidMarker b) bs

def Outcome.rest? : Outcome → Option Bytes
  | .message _ rest => some rest
  | .malformed _ rest => some rest
  | .incomplete => none

theorem length_receivePayload {limit n : Nat} {bs rest : Bytes}
    (h : (receivePayload limit n bs).rest? = some rest) : rest.length ≤ bs.length := by
  unfold receivePayload at h
  split at h
  · cases h
    exact Nat.le_refl _
  · split at h
    · cases h
    · rename_i payload more hsplit
      rw [Bytes.split?_eq] at hsplit
      split at hsplit
      · simp only [Option.some.injEq, Prod.mk.injEq] at hsplit
        have : more = rest := by split at h <;> exact Option.some.inj h
        rw [← this, ← hsplit.2]
        simp
      · cases hsplit

theorem length_receive {limit : Nat} {bs rest : Bytes}
    (h : (receive limit bs).rest? = some rest) : rest.length < bs.length := by
  cases bs with
  | nil => cases h
  | cons b bs =>
    simp only [receive] at h
    simp only [List.length_cons]
    split at h
    · split at h
      · have := length_receivePayload h
        omega
      · cases h
        omega
    · split at h
      · rename_i field more hsplit
        have := length_receivePayload h
        rw [Bytes.split?_eq] at hsplit
        split at hsplit
        · simp only [Option.some.injEq, Prod.mk.injEq] at hsplit
          rw [← hsplit.2] at this
          simp at this
          omega
        · cases hsplit
      · cases h
    · cases h
      omega

/-- Takes frames off a stream until nothing of it is left or it ends inside of one. An empty stream
ends inside of its first frame. -/
def receiveAll (limit : Nat) (bs : Bytes) : List Outcome :=
  match _h : (receive limit bs).rest? with
  | none => [receive limit bs]
  | some [] => [receive limit bs]
  | some (b :: rest) => receive limit bs :: receiveAll limit (b :: rest)
termination_by bs.length
decreasing_by exact length_receive _h

end TupleClient.Frame
