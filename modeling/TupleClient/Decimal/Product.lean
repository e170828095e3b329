import TupleClient.Decimal.Binary

/-!
The product of a whole number and a floating-point number, and its whole part.
-/
namespace TupleClient.Decimal

/-- The whole part of a number that is not negative; `top` for infinity, 0 for what is no number
or below zero. -/
def wholePart (top : Nat) (bits : Nat) : Nat :=
  match double.parts bits with
  | .notANumber => 0
  | .infinite negative => if negative then 0 else top
  | .finite negative m p _ => if negative then 0 else m * twoTo p.toNat / twoTo (-p).toNat

def product (x y : Nat) : Nat :=
  match double.parts x, double.parts y with
  | .finite _ m p _, .finite _ n q _ =>
    double.nearest false (m * n * twoTo (p + q).toNat) (twoTo (-(p + q)).toNat)
  | _, _ => double.infinity false

/-- The whole part of `n` times a factor, both taken as doubles and the product rounded to one;
`top` where it is infinite, 0 where the factor is negative or no number. -/
def fractionOf (top n : Nat) (factor : UInt64) : Nat :=
  match double.parts factor.toNat with
  | .notANumber => 0
  | .infinite negative => if negative then 0 else top
  | .finite negative _ _ _ =>
    if negative then 0 else wholePart top (product (double.nearest false n 1) factor.toNat)

end TupleClient.Decimal
