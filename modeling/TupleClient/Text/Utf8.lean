import TupleClient.Bytes

/-!
UTF-8 that may be broken: where it first breaks and how, and a reading that puts U+FFFD for each
broken stretch.
-/
namespace TupleClient.Utf8

/-- What a character's first byte says: how many bytes follow, between which bounds the next one
lies, and the high bits of the code point. -/
structure Lead where
  following : Nat
  low : UInt8
  high : UInt8
  bits : Nat

/-- The first bytes of characters. The bounds of the second byte leave out code points that have a
shorter form, surrogates, and what lies past U+10FFFF. -/
def lead? (b : UInt8) : Option Lead :=
  let n := b.toNat
  if n < 0x80 then some ⟨0, 0x80, 0xbf, n⟩
  else if n < 0xc2 then none
  else if n < 0xe0 then some ⟨1, 0x80, 0xbf, n - 0xc0⟩
  else if n == 0xe0 then some ⟨2, 0xa0, 0xbf, 0⟩
  else if n == 0xed then some ⟨2, 0x80, 0x9f, 0xd⟩
  else if n < 0xf0 then some ⟨2, 0x80, 0xbf, n - 0xe0⟩
  else if n == 0xf0 then some ⟨3, 0x90, 0xbf, 0⟩
  else if n < 0xf4 then some ⟨3, 0x80, 0xbf, n - 0xf0⟩
  else if n == 0xf4 then some ⟨3, 0x80, 0x8f, 4⟩
  else none

/-- The start of a byte string: a character, `length` bytes that begin none, or the beginning of
one that the end cuts off. -/
inductive Piece where
  | char (c : Char) (length : Nat)
  | broken (length : Nat)
  | cut

def follow (seen bits : Nat) : (following : Nat) → (low high : UInt8) → Bytes → Piece
  | 0, _, _, _ => .char (Char.ofNat bits) seen
  | _ + 1, _, _, [] => .cut
  | n + 1, low, high, b :: bs =>
    if low ≤ b ∧ b ≤ high then follow (seen + 1) (64 * bits + b.toNat % 64) n 0x80 0xbf bs
    else .broken seen

def piece (b : UInt8) (bs : Bytes) : Piece :=
  match lead? b with
  | none => .broken 1
  | some l => follow 1 l.bits l.following l.low l.high bs

/-- Where UTF-8 breaks: `length` bytes that can be skipped, or none where the input just ends. -/
structure Fault where
  index : Nat
  length : Option Nat
deriving DecidableEq

def Fault.message (f : Fault) : String :=
  match f.length with
  | some n => s!"invalid utf-8 sequence of {n} bytes from index {f.index}"
  | none => s!"incomplete utf-8 byte sequence from index {f.index}"

def faultFrom? (index : Nat) (bytes : Bytes) : Option Fault :=
  match bytes with
  | [] => none
  | b :: bs =>
    match piece b bs with
    | .char _ n => faultFrom? (index + n) (bs.drop (n - 1))
    | .broken n => some ⟨index, some n⟩
    | .cut => some ⟨index, none⟩
termination_by bytes.length
decreasing_by simp only [List.length_drop, List.length_cons]; omega

def fault? (bytes : Bytes) : Option Fault := faultFrom? 0 bytes

/-- The characters, with U+FFFD for each stretch that is none. -/
def lossy (bytes : Bytes) : List Char :=
  match bytes with
  | [] => []
  | b :: bs =>
    match piece b bs with
    | .char c n => c :: lossy (bs.drop (n - 1))
    | .broken n => '\ufffd' :: lossy (bs.drop (n - 1))
    | .cut => ['\ufffd']
termination_by bytes.length
decreasing_by all_goals (simp only [List.length_drop, List.length_cons]; omega)

end TupleClient.Utf8
