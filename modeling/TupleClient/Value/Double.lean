import TupleClient.Decimal.Binary
import TupleClient.Value

/-!
The view of a value as a floating-point number.
-/
namespace TupleClient.Value

def double? : Value → Option UInt64
  | .float32 bits => some (Decimal.widen bits)
  | .float64 bits => some bits
  | _ => none

end TupleClient.Value
