import TupleClient.Decimal.Binary

/-!
Reading a decimal: an optional sign, digits with an optional point, an optional exponent. The
result is the nearest number, a half going to the even one.
-/
namespace TupleClient.Decimal

def isDigit (c : Char) : Bool := '0' ≤ c && c ≤ '9'

def digitValue (c : Char) : Nat := c.toNat - '0'.toNat

def digitsValue (cs : List Char) : Nat := cs.foldl (fun n c => 10 * n + digitValue c) 0

/-- One or more digits and nothing else. -/
def natural? (cs : List Char) : Option Nat :=
  if cs ≠ [] ∧ cs.all isDigit then some (digitsValue cs) else none

/-- A sign is optional; the flag says whether it is a minus. -/
def splitSign : List Char → Bool × List Char
  | '-' :: cs => (true, cs)
  | '+' :: cs => (false, cs)
  | cs => (false, cs)

def integer? (cs : List Char) : Option Int :=
  match splitSign cs with
  | (negative, ds) => (natural? ds).map fun n => if negative then -(n : Int) else n

/-- The exponent after the digits: nothing, or `e` and an integer. -/
def exponent? : List Char → Option Int
  | [] => some 0
  | c :: cs => if c == 'e' || c == 'E' then integer? cs else none

/-- The nearest number to `digits * 10^exponent`. Exponents that are far out of reach are settled
without computing the power. -/
def round (f : Format) (negative : Bool) (digits : Nat) (count : Nat) (exponent : Int) : Nat :=
  if digits = 0 then f.signBit negative
  else if exponent + count < -400 then f.signBit negative
  else if exponent > 400 then f.infinity negative
  else f.nearest negative (digits * tenTo exponent.toNat) (tenTo (-exponent).toNat)

def double? (cs : List Char) : Option UInt64 :=
  let (negative, body) := splitSign cs
  let whole := body.takeWhile isDigit
  let afterWhole := body.dropWhile isDigit
  let (fraction, rest) :=
    match afterWhole with
    | '.' :: more => (more.takeWhile isDigit, more.dropWhile isDigit)
    | other => ([], other)
  if whole.isEmpty && fraction.isEmpty then none
  else
    match exponent? rest with
    | none => none
    | some e =>
      let digits := digitsValue (whole ++ fraction)
      some (UInt64.ofNat
        (round double negative digits (whole.length + fraction.length) (e - fraction.length)))

end TupleClient.Decimal
