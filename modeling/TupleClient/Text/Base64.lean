import TupleClient.Bytes

/-!
Base 64 with the alphabet `A-Z a-z 0-9 + /`: four symbols for three bytes. The last group is filled
up with `=`, no fewer and no more than it takes, and its unused bits are zero.
-/
namespace TupleClient.Base64

def sextet? (b : UInt8) : Option Nat :=
  let n := b.toNat
  if 0x41 ≤ n ∧ n ≤ 0x5a then some (n - 0x41)
  else if 0x61 ≤ n ∧ n ≤ 0x7a then some (n - 0x61 + 26)
  else if 0x30 ≤ n ∧ n ≤ 0x39 then some (n - 0x30 + 52)
  else if n = 0x2b then some 62
  else if n = 0x2f then some 63
  else none

def padding : UInt8 := 0x3d

inductive Error where
  | invalidSymbol (offset : Nat) (symbol : UInt8)
  | invalidLength (symbols : Nat)
  | invalidLastSymbol (offset : Nat) (symbol : UInt8)
  | invalidPadding
deriving DecidableEq

def Error.message : Error → String
  | .invalidSymbol offset symbol => s!"Invalid symbol {symbol.toNat}, offset {offset}."
  | .invalidLength symbols => s!"Invalid input length: {symbols}"
  | .invalidLastSymbol offset symbol => s!"Invalid last symbol {symbol.toNat}, offset {offset}."
  | .invalidPadding => "Invalid padding"

/-- The bytes of a last group by its sextets, and the number of bits that are left over. -/
def tailBytes : List Nat → Bytes × Nat
  | [w, x] => ([UInt8.ofNat (4 * w + x / 16)], x % 16)
  | [w, x, y] => ([UInt8.ofNat (4 * w + x / 16), UInt8.ofNat (x * 16 + y / 4)], y % 4)
  | [w, x, y, z] =>
    ([UInt8.ofNat (4 * w + x / 16), UInt8.ofNat (x * 16 + y / 4), UInt8.ofNat (y * 64 + z)], 0)
  | _ => ([], 0)

/-- Reads the symbols of the last group, which starts at `offset`: sextets as far as they go, then
padding, which stands neither first nor second. -/
def tailSymbols (offset : Nat) : Bytes → (sextets : List Nat) → (last : UInt8) → (pads : Nat) →
    Except Error (List Nat × UInt8 × Nat)
  | [], sextets, last, pads => .ok (sextets.reverse, last, pads)
  | b :: bs, sextets, last, pads =>
    let index := sextets.length + pads
    if b = padding then
      if index < 2 then .error (.invalidSymbol (offset + index) b)
      else tailSymbols offset bs sextets last (pads + 1)
    else if 0 < pads then .error (.invalidSymbol (offset + sextets.length) padding)
    else
      match sextet? b with
      | some n => tailSymbols offset bs (n :: sextets) b pads
      | none => .error (.invalidSymbol (offset + index) b)

def tail (offset : Nat) (symbols : Bytes) : Except Error Bytes := do
  let (sextets, last, pads) ← tailSymbols offset symbols [] 0 0
  if symbols ≠ [] ∧ sextets.length < 2 then .error (.invalidLength (offset + sextets.length))
  else if (pads + sextets.length) % 4 ≠ 0 then .error .invalidPadding
  else
    let (bytes, leftover) := tailBytes sextets
    if leftover ≠ 0 then .error (.invalidLastSymbol (offset + sextets.length - 1) last)
    else .ok bytes

def group (offset : Nat) (a b c d : UInt8) : Except Error Bytes :=
  match sextet? a, sextet? b, sextet? c, sextet? d with
  | some w, some x, some y, some z => .ok (tailBytes [w, x, y, z]).1
  | none, _, _, _ => .error (.invalidSymbol offset a)
  | _, none, _, _ => .error (.invalidSymbol (offset + 1) b)
  | _, _, none, _ => .error (.invalidSymbol (offset + 2) c)
  | _, _, _, none => .error (.invalidSymbol (offset + 3) d)

def groups (offset : Nat) : Bytes → Except Error Bytes
  | a :: b :: c :: d :: e :: rest => do
    let bytes ← group offset a b c d
    let more ← groups (offset + 4) (e :: rest)
    .ok (bytes ++ more)
  | symbols => tail offset symbols

/-- A symbol that stands alone after whole groups and is none of the alphabet is reported before
all others. -/
def decode (symbols : Bytes) : Except Error Bytes :=
  match symbols.getLast? with
  | some last =>
    if symbols.length % 4 = 1 ∧ last ≠ padding ∧ sextet? last = none then
      .error (.invalidSymbol (symbols.length - 1) last)
    else groups 0 symbols
  | none => .ok []

end TupleClient.Base64
