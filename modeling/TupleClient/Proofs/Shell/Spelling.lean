import TupleClient.Proofs.Text.Digits
import TupleClient.Proofs.Text.Words
import TupleClient.Shell.Literal

/-!
How values are typed, and that each is what its spelling is read as.
-/
namespace TupleClient.Shell

inductive Literal where
  | nil
  | bool (b : Bool)
  | int (i : Int) (low : minSigned64 ≤ i) (high : i ≤ maxUnsigned64)
  | uuid (u : Uuid)
  | text (s : String)

/-- Between quotes: a backslash before quotes and backslashes, and `n` behind one for a line
end. -/
def escape (c : Char) : List Char :=
  if c = '\n' then ['\\', 'n'] else if c = '"' ∨ c = '\\' then ['\\', c] else [c]

namespace Literal

def value : Literal → Value
  | nil => .nil
  | bool b => .bool b
  | int i _ _ => .int i
  | uuid u => .uuid u
  | text s => .text s

def spell : Literal → List Char
  | nil => ['n', 'u', 'l', 'l']
  | bool true => ['t', 'r', 'u', 'e']
  | bool false => ['f', 'a', 'l', 's', 'e']
  | int i _ _ => (toString i).toList
  | uuid u => u.chars
  | text s => '"' :: s.toList.flatMap escape ++ ['"']

end Literal

def nameLetters : List Char := ['n', 'u', 'l', 'i', 't', 'r', 'e', 'f', 'a', 's']

theorem literal_of_unnamed {word : List Char} {c : Char} (hc : c ∈ word)
    (h : c ∉ nameLetters) :
    literal word = match integer? word with
      | some i => .int i
      | none =>
        match (if word.contains '.' then Decimal.double? word else none) with
        | some bits => .float64 bits
        | none =>
          match Uuid.ofChars? word with
          | some u => .uuid u
          | none => .text (String.ofList word) := by
  have hnot (name : List Char) (hname : name ⊆ nameLetters) :
      word ≠ name := by
    rintro rfl
    exact h (hname hc)
  unfold literal
  refine (if_neg (not_or.2 ⟨hnot _ (by decide), hnot _ (by decide)⟩)).trans ?_
  exact (if_neg (hnot _ (by decide))).trans (if_neg (hnot _ (by decide)))

theorem literal_toString {i : Int} (low : minSigned64 ≤ i) (high : i ≤ maxUnsigned64) :
    literal (toString i).toList = .int i := by
  obtain ⟨c, hc⟩ := List.exists_mem_of_ne_nil _ (Decimal.toString_ne_nil i)
  have hread : integer? (toString i).toList = some i := by
    simp only [integer?, Decimal.integer?_toString, low, high, and_self, if_true]
  rw [literal_of_unnamed hc, hread]
  obtain rfl | hdigit := Decimal.mem_toString hc
  · decide
  · intro hmem
    have hall : nameLetters.all (!Decimal.isDigit ·) = true := rfl
    have hnot := List.all_eq_true.1 hall c hmem
    rw [hdigit] at hnot
    cases hnot

theorem literal_chars (u : Uuid) : literal u.chars = .uuid u := by
  have hhyphen : '-' ∈ u.chars := by simp [Uuid.chars]
  have hdot : u.chars.contains '.' = false := by
    have hnot : '.' ∉ '-' :: Bytes.hexDigits := by decide
    simpa using fun hmem => hnot (u.mem_of_mem_chars hmem)
  -- The first hyphen stands too far behind to be a sign.
  have hint : integer? u.chars = none := by
    obtain ⟨c, cs, hcs, hmem⟩ := u.chars_eq_cons
    simp only [integer?, hcs, Decimal.integer?_eq_none hmem rfl]
  rw [literal_of_unnamed hhyphen (by decide), hint, hdot]
  simp [Uuid.ofChars?_chars]

structure Bare (word : List Char) : Prop where
  ne_nil : word ≠ []
  noBlank : Text.NoBlank word
  unquoted : word.head? ≠ some '"'

def isBareChar (c : Char) : Bool := !Text.isBlank c && c != '"'

theorem Bare.of_all {word : List Char} (hne : word ≠ []) (h : word.all isBareChar = true) :
    Bare word := by
  have hbare : ∀ c ∈ word, Text.isBlank c = false ∧ c ≠ '"' := by
    simpa [isBareChar] using List.all_eq_true.1 h
  exact ⟨hne, fun c hc => (hbare c hc).1, fun hhead => (hbare _ (List.mem_of_head? hhead)).2 rfl⟩

theorem isBlank_of_isDigit {c : Char} (h : Decimal.isDigit c = true) :
    Text.isBlank c = false := by
  have hbounds : 48 ≤ c.toNat ∧ c.toNat ≤ 57 := by
    simpa [Decimal.isDigit, Char.le_def, UInt32.le_iff_toNat_le] using h
  simp only [Text.isBlank, Bool.or_eq_false_iff, Bool.and_eq_false_iff, decide_eq_false_iff_not,
    beq_eq_false_iff_ne]
  omega

theorem bare_toString (i : Int) : Bare (toString i).toList := by
  refine .of_all (Decimal.toString_ne_nil i) (List.all_eq_true.2 fun c hc => ?_)
  obtain rfl | hdigit := Decimal.mem_toString hc
  · rfl
  · have hquote : c ≠ '"' := by
      rintro rfl
      cases hdigit
    simp [isBareChar, isBlank_of_isDigit hdigit, hquote]

theorem bare_chars (u : Uuid) : Bare u.chars := by
  refine .of_all (by simp [Uuid.chars]) (List.all_eq_true.2 fun c hc => ?_)
  have hall : ('-' :: Bytes.hexDigits).all isBareChar = true := by decide
  exact List.all_eq_true.1 hall c (u.mem_of_mem_chars hc)

theorem Literal.spell_cases (l : Literal) :
    (Bare l.spell ∧ literal l.spell = l.value) ∨ ∃ s, l = .text s := by
  cases l with
  | nil => exact .inl ⟨.of_all (by decide) rfl, rfl⟩
  | bool b =>
    cases b with
    | true => exact .inl ⟨.of_all (by decide) rfl, rfl⟩
    | false => exact .inl ⟨.of_all (by decide) rfl, rfl⟩
  | int i low high => exact .inl ⟨bare_toString i, literal_toString low high⟩
  | uuid u => exact .inl ⟨bare_chars u, literal_chars u⟩
  | text s => exact .inr ⟨s, rfl⟩

end TupleClient.Shell
