import TupleClient.Bytes

/-!
What can be wrong with a value that is to be written, or with bytes that are to be read.
-/
namespace TupleClient.Wire

inductive Sized where
  | text
  | binary
  | array
  | map
  | ext
  | frame
deriving DecidableEq

def Sized.name : Sized → String
  | .text => "string"
  | .binary => "binary"
  | .array => "array"
  | .map => "map"
  | .ext => "extension"
  | .frame => "frame"

inductive CodecError where
  | truncated (needed available : Nat)
  | invalidMarker (marker : UInt8)
  | integerOutOfRange (i : Int)
  | lengthOverflow (what : Sized) (length : Nat)
  | invalidText
  | tooDeep (levels : Nat)
  | lengthMismatch (declared consumed : Nat)
  | frameTooLarge (length limit : Nat)
  | unexpected (expected found : String)
deriving DecidableEq

def CodecError.message : CodecError → String
  | .truncated needed available =>
    s!"unexpected end of input: need {needed} bytes, have {available}"
  | .invalidMarker marker => s!"invalid marker byte 0x{String.ofList (Bytes.hexByte marker)}"
  | .integerOutOfRange i => s!"integer {i} does not fit in 64 bits"
  | .lengthOverflow what length => s!"{what.name} of length {length} exceeds the 32-bit limit"
  | .invalidText => "invalid utf-8 in string"
  | .tooDeep levels => s!"nesting deeper than {levels} levels"
  | .lengthMismatch declared consumed =>
    s!"frame declared {declared} bytes but {consumed} were consumed"
  | .frameTooLarge length limit => s!"frame of {length} bytes exceeds the limit of {limit}"
  | .unexpected expected found => s!"expected {expected}, found {found}"

end TupleClient.Wire
