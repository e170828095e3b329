import TupleClient.Decimal.Reading
import TupleClient.Uuid

/-!
Numbers and identifiers that are written in digits are read as what they were.
-/
namespace TupleClient

/-! Digits in base 16 -/

namespace Bytes

def hexDigits : List Char := "0123456789abcdef".toList

theorem hexValue?_hexDigit {n : Nat} (h : n < 16) : hexValue? (hexDigit n) = some n := by
  have hall : ∀ i : Fin 16, hexValue? (hexDigit i) = some i := by decide
  exact hall ⟨n, h⟩

theorem ofHexFrom_hexByte (read : Bytes) (b : UInt8) (cs : List Char) :
    ofHexFrom read (hexByte b ++ cs) = ofHexFrom (b :: read) cs := by
  have hb := b.toNat_lt
  have hhigh : hexValue? (hexDigit (b.toNat / 16)) = some (b.toNat / 16) :=
    hexValue?_hexDigit (by omega)
  have hlow : hexValue? (hexDigit (b.toNat % 16)) = some (b.toNat % 16) :=
    hexValue?_hexDigit (by omega)
  simp only [hexByte, List.cons_append, List.nil_append, ofHexFrom, hhigh, hlow, Nat.div_add_mod,
    UInt8.ofNat_toNat]

theorem ofHex?_hex (bs : Bytes) : ofHex? (bs.flatMap hexByte) = some bs := by
  suffices h : ∀ read, ofHexFrom read (bs.flatMap hexByte) = some (read.reverse ++ bs) from h []
  induction bs with
  | nil => simp [ofHexFrom]
  | cons b bs ih =>
    intro read
    rw [List.flatMap_cons, ofHexFrom_hexByte, ih]
    simp

theorem length_hex (bs : Bytes) : (bs.flatMap hexByte).length = 2 * bs.length := by
  induction bs with
  | nil => rfl
  | cons b bs ih =>
    rw [List.flatMap_cons, List.length_append, ih, List.length_cons, Nat.mul_succ]
    exact Nat.add_comm 2 _

theorem mem_of_mem_hexByte {b : UInt8} {c : Char} (h : c ∈ hexByte b) :
    c ∈ hexDigits := by
  have hdigit : ∀ i : Fin 16, hexDigit i ∈ hexDigits := by decide
  have hb := b.toNat_lt
  obtain rfl | rfl : c = _ ∨ c = _ := by simpa [hexByte] using h
  · exact hdigit ⟨b.toNat / 16, by omega⟩
  · exact hdigit ⟨b.toNat % 16, by omega⟩

end Bytes

namespace Uuid

/-- A group of a given length behind the first `k` characters, and the hyphen after it. -/
theorem drop_group {cs group rest : List Char} {k n : Nat}
    (h : cs.drop k = group ++ '-' :: rest) (hgroup : group.length = n) :
    (cs.drop k).take n = group ∧ (cs.drop (k + n)).take 1 = ['-'] ∧
      cs.drop (k + n + 1) = rest := by
  have hbehind : cs.drop (k + n) = '-' :: rest := by
    rw [← List.drop_drop, h, List.drop_left' hgroup]
  refine ⟨by rw [h, List.take_left' hgroup], by rw [hbehind]; rfl, ?_⟩
  rw [← List.drop_drop, hbehind]
  rfl

theorem ofChars?_groups {a b c d : List Char} (e : List Char) (ha : a.length = 8)
    (hb : b.length = 4) (hc : c.length = 4) (hd : d.length = 4) :
    ofChars? (a ++ '-' :: b ++ '-' :: c ++ '-' :: d ++ '-' :: e) =
      (Bytes.ofHex? (a ++ b ++ c ++ d ++ e)).bind ofBytes? := by
  generalize hcs : a ++ '-' :: b ++ '-' :: c ++ '-' :: d ++ '-' :: e = cs
  have h0 : cs.drop 0 = a ++ '-' :: (b ++ '-' :: (c ++ '-' :: (d ++ '-' :: e))) := by
    simp [← hcs]
  obtain ⟨htake0, hhyphen0, h1⟩ := drop_group h0 ha
  obtain ⟨htake1, hhyphen1, h2⟩ := drop_group h1 hb
  obtain ⟨htake2, hhyphen2, h3⟩ := drop_group h2 hc
  obtain ⟨htake3, hhyphen3, h4⟩ := drop_group h3 hd
  simp only [Nat.zero_add, Nat.reduceAdd, List.drop_zero] at *
  simp only [ofChars?, htake0, htake1, htake2, htake3, hhyphen0, hhyphen1, hhyphen2, hhyphen3, h4]
  cases Bytes.ofHex? (a ++ b ++ c ++ d ++ e) <;> rfl

theorem ofChars?_chars (u : Uuid) : ofChars? u.chars = some u := by
  obtain ⟨bs, hlength⟩ := u
  have hgroup (n : Nat) {group : Bytes} (h : group.length = n) :
      (group.flatMap Bytes.hexByte).length = 2 * n := by rw [Bytes.length_hex, h]
  have hstep (k n : Nat) : (bs.drop k).take n ++ bs.drop (k + n) = bs.drop k := by
    rw [← List.drop_drop, List.take_append_drop]
  have hjoin : bs.take 4 ++ (bs.drop 4).take 2 ++ (bs.drop 6).take 2 ++ (bs.drop 8).take 2 ++
      bs.drop 10 = bs := by
    rw [List.append_assoc, hstep 8 2, List.append_assoc, hstep 6 2, List.append_assoc, hstep 4 2,
      List.take_append_drop]
  rw [chars, ofChars?_groups _ (hgroup 4 (by simp [hlength]))
    (hgroup 2 (by simp [hlength])) (hgroup 2 (by simp [hlength])) (hgroup 2 (by simp [hlength]))]
  simp only [← List.flatMap_append, hjoin, Bytes.ofHex?_hex, Option.bind_some, ofBytes?, hlength,
    dite_true]

theorem mem_of_mem_chars (u : Uuid) {c : Char} (h : c ∈ u.chars) :
    c ∈ '-' :: Bytes.hexDigits := by
  have hhex (bs : Bytes) (hc : c ∈ bs.flatMap Bytes.hexByte) : c ∈ '-' :: Bytes.hexDigits := by
    obtain ⟨b, -, hb⟩ := List.mem_flatMap.1 hc
    exact List.mem_cons_of_mem _ (Bytes.mem_of_mem_hexByte hb)
  simp only [chars, List.mem_append, List.mem_cons] at h
  grind

theorem chars_eq_cons (u : Uuid) : ∃ c cs, u.chars = c :: cs ∧ '-' ∈ cs := by
  obtain ⟨bs, hlength⟩ := u
  cases bs with
  | nil => cases hlength
  | cons b bs => exact ⟨_, _, rfl, by simp⟩

end Uuid

/-! Digits in base 10 -/

namespace Decimal

theorem digitsValue_toDigits (n : Nat) : digitsValue (Nat.toDigits 10 n) = n :=
  Nat.ofDigitChars_eq_foldl.symm.trans Nat.ofDigitChars_ten_toDigits

theorem natural?_toDigits (n : Nat) : natural? (Nat.toDigits 10 n) = some n := by
  have hall : (Nat.toDigits 10 n).all isDigit = true :=
    List.all_eq_true.2 fun c hc => Nat.isDigit_of_mem_toDigits (by decide) (by decide) hc
  rw [natural?, if_pos ⟨Nat.toDigits_ne_nil, hall⟩, digitsValue_toDigits]

theorem splitSign_of_digit {c : Char} (h : isDigit c = true) (cs : List Char) :
    splitSign (c :: cs) = (false, c :: cs) := by
  unfold splitSign
  split
  · rename_i heq
    cases heq
    cases h
  · rename_i heq
    cases heq
    cases h
  · rfl

theorem integer?_toDigits (n : Nat) : integer? (Nat.toDigits 10 n) = some (n : Int) := by
  have hsign : splitSign (Nat.toDigits 10 n) = (false, Nat.toDigits 10 n) := by
    cases hdigits : Nat.toDigits 10 n with
    | nil => exact absurd hdigits Nat.toDigits_ne_nil
    | cons c cs =>
      have hc : c ∈ Nat.toDigits 10 n := by simp [hdigits]
      exact splitSign_of_digit (Nat.isDigit_of_mem_toDigits (by decide) (by decide) hc) cs
  simp [integer?, hsign, natural?_toDigits]

theorem integer?_toString (i : Int) : integer? (toString i).toList = some i := by
  cases i with
  | ofNat n =>
    simpa [toString, Int.repr] using integer?_toDigits n
  | negSucc n =>
    simp [toString, Int.repr, integer?, splitSign, natural?_toDigits]
    omega

theorem toString_ne_nil (i : Int) : (toString i).toList ≠ [] := by
  intro h
  have hread := integer?_toString i
  rw [h] at hread
  cases hread

theorem subset_splitSign (c : Char) (cs : List Char) : cs ⊆ (splitSign (c :: cs)).2 := by
  unfold splitSign
  split
  · rename_i heq
    rw [(List.cons.inj heq).2]
    exact List.Subset.refl _
  · rename_i heq
    rw [(List.cons.inj heq).2]
    exact List.Subset.refl _
  · exact List.subset_cons_self c cs

theorem integer?_eq_none {c d : Char} {cs : List Char} (hd : d ∈ cs) (h : isDigit d = false) :
    integer? (c :: cs) = none := by
  have hnone : natural? (splitSign (c :: cs)).2 = none := by
    refine if_neg fun hall => ?_
    rw [List.all_eq_true.1 hall.2 d (subset_splitSign c cs hd)] at h
    cases h
  simp [integer?, hnone]

theorem mem_toString {i : Int} {c : Char} (h : c ∈ (toString i).toList) :
    c = '-' ∨ isDigit c = true := by
  cases i with
  | ofNat n =>
    have hc : c ∈ Nat.toDigits 10 n := by simpa [toString, Int.repr] using h
    exact .inr (Nat.isDigit_of_mem_toDigits (by decide) (by decide) hc)
  | negSucc n =>
    have hc : c = '-' ∨ c ∈ Nat.toDigits 10 (n + 1) := by simpa [toString, Int.repr] using h
    exact hc.imp_right (Nat.isDigit_of_mem_toDigits (by decide) (by decide))

end Decimal

end TupleClient
