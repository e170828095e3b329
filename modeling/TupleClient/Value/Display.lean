import TupleClient.Decimal.Shortest
import TupleClient.Text.Quoted
import TupleClient.Value

/-!
Values as a person reads them.
-/
namespace TupleClient.Value

def sized (what : String) (bs : Bytes) : String := s!"<{what}{bs.length} bytes>"

mutual
/-- Appends the text of a value: texts are quoted, binary data is counted, arrays stand in square
brackets and maps in curly ones. -/
def renderOnto (out : String) : Value → String
  | .nil => out ++ "null"
  | .bool b => out ++ (if b then "true" else "false")
  | .int i => out ++ toString i
  | .float32 bits => out ++ Decimal.text Decimal.single bits.toNat
  | .float64 bits => out ++ Decimal.text Decimal.double bits.toNat
  | .text s => out ++ Text.quoted s
  | .binary bs => out ++ sized "" bs
  | .array items => (renderItemsOnto (out.push '[') true items).push ']'
  | .map entries => (renderEntriesOnto (out.push '\x7b') true entries).push '\x7d'
  | .uuid u => out ++ u.text
  | .ext subtype data => out ++ sized s!"ext {subtype.toInt}: " data
def renderItemsOnto (out : String) (first : Bool) : List Value → String
  | [] => out
  | v :: vs => renderItemsOnto (renderOnto (if first then out else out ++ ", ") v) false vs
def renderEntriesOnto (out : String) (first : Bool) : List (Value × Value) → String
  | [] => out
  | (k, v) :: es =>
    let key := renderOnto (if first then out else out ++ ", ") k
    renderEntriesOnto (renderOnto (key ++ ": ") v) false es
end

def display (v : Value) : String := renderOnto "" v

end TupleClient.Value
