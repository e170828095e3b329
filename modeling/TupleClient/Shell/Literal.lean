import TupleClient.Decimal.Reading
import TupleClient.Text.Blank
import TupleClient.Value

/-!
Values as they are typed: numbers, words, and texts between double quotes.
-/
namespace TupleClient.Shell

/-- A text between quotes: what is read, and what follows the closing quote. A backslash takes the
next character as it is, but `n` for a line end. There is none without a closing quote. -/
def closeQuote : (read : List Char) → List Char → Option (List Char × List Char)
  | _, [] => none
  | _, ['\\'] => none
  | read, '\\' :: c :: cs => closeQuote ((if c = 'n' then '\n' else c) :: read) cs
  | read, c :: cs => if c = '"' then some (read.reverse, cs) else closeQuote (c :: read) cs

theorem length_closeQuote {cs read text rest : List Char}
    (h : closeQuote read cs = some (text, rest)) : rest.length < cs.length := by
  fun_induction closeQuote read cs with
  | case1 => simp at h
  | case2 => simp at h
  | case3 read c cs ih =>
    have := ih h
    simp only [List.length_cons]
    omega
  | case4 =>
    simp only [Option.some.injEq, Prod.mk.injEq] at h
    simp [← h.2]
  | case5 read c cs _ _ _ ih =>
    have := ih h
    simp only [List.length_cons]
    omega

/-- An integer with an optional sign, within 64 bits: negative numbers as signed ones, others up to
the largest unsigned one. -/
def integer? (word : List Char) : Option Int :=
  match Decimal.integer? word with
  | some i => if minSigned64 ≤ i ∧ i ≤ maxUnsigned64 then some i else none
  | none => none

/-- What a word without quotes stands for. A number with a point is a floating-point number; what
is nothing else is a text. -/
def literal (word : List Char) : Value :=
  if word = ['n', 'u', 'l', 'l'] ∨ word = ['n', 'i', 'l'] then .nil
  else if word = ['t', 'r', 'u', 'e'] then .bool true
  else if word = ['f', 'a', 'l', 's', 'e'] then .bool false
  else
    match integer? word with
    | some i => .int i
    | none =>
      match (if word.contains '.' then Decimal.double? word else none) with
      | some bits => .float64 bits
      | none =>
        match Uuid.ofChars? word with
        | some u => .uuid u
        | none => .text (String.ofList word)

/-- The values of a line behind the ones already read, which are kept in reverse. There are none if
a quote is not closed. -/
def literalsFrom (values : List Value) (line : List Char) : Option (List Value) :=
  match line with
  | [] => some values.reverse
  | c :: cs =>
    if Text.isBlank c then literalsFrom values cs
    else if c = '"' then
      match _closed : closeQuote [] cs with
      | some (text, rest) => literalsFrom (.text (String.ofList text) :: values) rest
      | none => none
    else
      literalsFrom (literal (c :: cs.takeWhile (!Text.isBlank ·)) :: values)
        (cs.dropWhile (!Text.isBlank ·))
termination_by line.length
decreasing_by
  · simp
  · have := length_closeQuote _closed
    simp only [List.length_cons]
    omega
  · have := (List.dropWhile_sublist (fun c => !Text.isBlank c) (l := cs)).length_le
    simp only [List.length_cons]
    omega

def literals (line : List Char) : Option (List Value) := literalsFrom [] line

end TupleClient.Shell
