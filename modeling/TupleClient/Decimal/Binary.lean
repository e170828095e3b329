/-!
Binary floating-point numbers by their bits: a sign, an exponent field and a fraction field.
-/
namespace TupleClient.Decimal

def twoTo (n : Nat) : Nat := Nat.pow 2 n

def tenTo (n : Nat) : Nat := Nat.pow 10 n

/-- `fraction` bits below the leading one, and `exponent` bits. -/
structure Format where
  fraction : Nat
  exponent : Nat

def single : Format := ⟨23, 8⟩

def double : Format := ⟨52, 11⟩

/-- What the bits of a number say. A finite number is `(-1)^negative * mantissa * 2^power`;
`narrowBelow` holds where the next number towards zero is only half as far as the one away from
it. -/
inductive Parts where
  | notANumber
  | infinite (negative : Bool)
  | finite (negative : Bool) (mantissa : Nat) (power : Int) (narrowBelow : Bool)

namespace Format

def fieldMax (f : Format) : Nat := twoTo f.exponent - 1

/-- The power of two of the last place of the smallest numbers. -/
def minPower (f : Format) : Int := 2 - (twoTo (f.exponent - 1) : Int) - f.fraction

def parts (f : Format) (bits : Nat) : Parts :=
  let low := bits % twoTo f.fraction
  let field := bits / twoTo f.fraction % twoTo f.exponent
  let negative := bits / twoTo (f.fraction + f.exponent) % 2 == 1
  if field = f.fieldMax then (if low = 0 then .infinite negative else .notANumber)
  else if field = 0 then .finite negative low f.minPower false
  else .finite negative (twoTo f.fraction + low) (f.minPower + (field - 1)) (low == 0 && 1 < field)

def signBit (f : Format) (negative : Bool) : Nat :=
  if negative then twoTo (f.fraction + f.exponent) else 0

def infinity (f : Format) (negative : Bool) : Nat :=
  f.signBit negative + f.fieldMax * twoTo f.fraction

/-- A quotient rounded to the nearest whole number, a half to the even one. -/
def roundDiv (num den : Nat) : Nat :=
  let q := num / den
  let r := num % den
  if 2 * r > den || (2 * r == den && q % 2 == 1) then q + 1 else q

/-- The bits of the number nearest to `num / den`, a half to the even fraction; what is too large
becomes infinite. -/
def nearest (f : Format) (negative : Bool) (num den : Nat) : Nat :=
  if num = 0 then f.signBit negative
  else
    -- the power of the last place that leaves exactly `fraction + 1` bits, or the smallest one
    let guess : Int := (num.log2 : Int) - den.log2 - f.fraction
    let fits (p : Int) : Bool :=
      num * twoTo (-p).toNat < twoTo (f.fraction + 1) * den * twoTo p.toNat
    let power := max f.minPower (if fits (guess - 1) then guess - 1 else guess)
    let m := roundDiv (num * twoTo (-power).toNat) (den * twoTo power.toNat)
    -- the fraction field carries over into the exponent field where rounding reaches a power of two
    let magnitude := (power - f.minPower).toNat * twoTo f.fraction + m
    if magnitude < f.fieldMax * twoTo f.fraction then f.signBit negative + magnitude
    else f.infinity negative

end Format

/-- The double with the value of a single; of a not-a-number the payload is kept and made quiet. -/
def widen (bits : UInt32) : UInt64 :=
  match single.parts bits.toNat with
  | .notANumber =>
    let sign := bits.toNat / twoTo 31 * twoTo 63
    let payload := bits.toNat % twoTo 22 * twoTo 29
    UInt64.ofNat (sign + double.fieldMax * twoTo 52 + twoTo 51 + payload)
  | .infinite negative => UInt64.ofNat (double.infinity negative)
  | .finite negative m p _ =>
    UInt64.ofNat (double.nearest negative (m * twoTo p.toNat) (twoTo (-p).toNat))

end TupleClient.Decimal
