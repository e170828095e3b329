import TupleClient.Decimal.Binary

/-!
The shortest decimal of a binary number: the fewest digits that read back as the same number, and
of these the ones nearest to it.
-/
namespace TupleClient.Decimal

/-- The number of decimal digits, none for zero. -/
def digitCount (n : Nat) : Nat := if n = 0 then 0 else (Nat.toDigits 10 n).length

/-- The numbers that read back as `value / den` are those from `low / den` to `high / den`, the two
ends among them iff `closed`. -/
structure Interval where
  value : Nat
  low : Nat
  high : Nat
  den : Nat
  closed : Bool

/-- The reals that round to `m * 2^p`: half a place on both sides, a quarter below where the numbers
lie closer; an even mantissa wins the ties at both ends. -/
def Interval.around (m : Nat) (p : Int) (narrowBelow : Bool) : Interval :=
  let up := twoTo p.toNat
  { value := 4 * m * up
    low := (4 * m - (if narrowBelow then 1 else 2)) * up
    high := (4 * m + 2) * up
    den := 4 * twoTo (-p).toNat
    closed := m % 2 == 0 }

/-- The `k` with `10^(k-1) ≤ value / den < 10^k`. -/
def Interval.scale (i : Interval) : Int :=
  if i.den ≤ i.value then digitCount (i.value / i.den)
  else 1 - (digitCount ((i.den + i.value - 1) / i.value - 1) : Int)

structure Numeral where
  digits : Nat
  exponent : Int

def Interval.admits (i : Interval) (d : Numeral) : Bool :=
  let x := d.digits * tenTo d.exponent.toNat * i.den
  let one := tenTo (-d.exponent).toNat
  if i.closed then i.low * one ≤ x && x ≤ i.high * one else i.low * one < x && x < i.high * one

/-- The better one of the value's two neighbours among the multiples of `10^exponent`; a tie goes
to the larger. -/
def Interval.onGrid? (i : Interval) (exponent : Int) : Option Numeral :=
  let num := i.value * tenTo (-exponent).toNat
  let den := i.den * tenTo exponent.toNat
  let below : Numeral := ⟨num / den, exponent⟩
  let above : Numeral := ⟨num / den + 1, exponent⟩
  match i.admits below, i.admits above with
  | true, true => some (if 2 * (num % den) < den then below else above)
  | true, false => some below
  | false, true => some above
  | false, false => none

def Interval.shortestFrom (i : Interval) (k : Int) : (more : Nat) → (places : Nat) → Numeral
  | 0, places =>
    ⟨i.value * tenTo (places - k).toNat / (i.den * tenTo (k - places).toNat), k - places⟩
  | more + 1, places =>
    match i.onGrid? (k - places) with
    | some d => d
    | none => i.shortestFrom k more (places + 1)

/-- Seventeen digits tell any two doubles apart. -/
def Interval.shortest (i : Interval) : Numeral := i.shortestFrom i.scale 17 1

/-- Digits without an exponent: zeros are filled in up to the point or after it. -/
def Numeral.positional (d : Numeral) : List Char :=
  let ds := Nat.toDigits 10 d.digits
  if 0 ≤ d.exponent then ds ++ List.replicate d.exponent.toNat '0'
  else
    let places := (-d.exponent).toNat
    if places < ds.length then
      ds.take (ds.length - places) ++ '.' :: ds.drop (ds.length - places)
    else '0' :: '.' :: List.replicate (places - ds.length) '0' ++ ds

def Numeral.trim : (fuel : Nat) → Numeral → Numeral
  | 0, d => d
  | fuel + 1, d =>
    if d.digits % 10 = 0 ∧ d.digits ≠ 0 then Numeral.trim fuel ⟨d.digits / 10, d.exponent + 1⟩
    else d

/-- How numbers are written: the shortest digits, never an exponent, no point after a whole
number. -/
def text (f : Format) (bits : Nat) : String :=
  match f.parts bits with
  | .notANumber => "NaN"
  | .infinite negative => if negative then "-inf" else "inf"
  | .finite negative m p narrowBelow =>
    let unsigned :=
      if m = 0 then ['0']
      else ((Interval.around m p narrowBelow).shortest.trim 20).positional
    String.ofList (if negative then '-' :: unsigned else unsigned)

end TupleClient.Decimal
