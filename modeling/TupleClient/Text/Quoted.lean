import TupleClient.Text.Hidden

/-!
Quoted texts: between double quotes, with a backslash before what could be misread.
-/
namespace TupleClient.Text

/-- Tab, line ends, NUL, the quote and the backslash have short escapes; a hidden character is
written as its code point in base 16. -/
def escape (c : Char) : List Char :=
  if c = '\t' then ['\\', 't']
  else if c = '\r' then ['\\', 'r']
  else if c = '\n' then ['\\', 'n']
  else if c = '\x00' then ['\\', '0']
  else if c = '"' then ['\\', '"']
  else if c = '\\' then ['\\', '\\']
  else if isHidden c then ['\\', 'u', '\x7b'] ++ Nat.toDigits 16 c.toNat ++ ['\x7d']
  else [c]

def quoted (s : String) : String :=
  let inner := s.foldl (fun out c => (escape c).foldl String.push out) "\""
  inner.push '"'

end TupleClient.Text
