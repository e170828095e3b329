import TupleClient.Proofs.Wire.Number
import TupleClient.Wire.Encoding

/-!
What is written in front of a value with a length is read as its form and that length.
-/
namespace TupleClient.Wire

/-- The bytes of a field that gives the length `n`. A length in the first byte has none. -/
inductive Length.Gives : Length → Nat → Bytes → Prop where
  | fixed (n : Nat) : Gives (.fixed n) n []
  | field (width : Nat) {n : Nat} (h : n < Bytes.limit width) :
      Gives (.field width) n (Bytes.ofNat width n)

theorem Length.Gives.readLength {length : Length} {n : Nat} {field : Bytes}
    (h : length.Gives n field) (rest : Bytes) :
    readLength length (field ++ rest) = .ok (n, rest) := by
  cases h with
  | fixed => rfl
  | field width hn => exact readNat_append hn rest

theorem Length.Gives.readSized {length : Length} {field data : Bytes}
    (h : length.Gives data.length field) (rest : Bytes) :
    readSized length (field ++ (data ++ rest)) = .ok (data, rest) := by
  rw [Wire.readSized, h.readLength]
  exact take_append data rest

/-- A first byte of the family of forms, and the field behind it that gives the length `n`. -/
def Announces (family : Length → Form) (n : Nat) (head : Bytes) : Prop :=
  ∃ b length field, head = b :: field ∧ Form.ofByte b = family length ∧ length.Gives n field

theorem announces_fixed {family : Length → Form} {b : UInt8} {n : Nat}
    (h : Form.ofByte b = family (.fixed n)) : Announces family n [b] :=
  ⟨b, .fixed n, [], rfl, h, .fixed n⟩

theorem announces_field {family : Length → Form} {b : UInt8} {width n : Nat}
    (h : Form.ofByte b = family (.field width)) (hn : n < Bytes.limit width) :
    Announces family n (b :: Bytes.ofNat width n) :=
  ⟨b, .field width, Bytes.ofNat width n, rfl, h, .field width hn⟩

theorem announces_longHead {family : Length → Form} {what : Sized} {b : UInt8} {n : Nat}
    {head : Bytes} (hb : Form.ofByte b = family (.field 4)) (h : longHead what b n = .ok head) :
    Announces family n head := by
  unfold longHead at h
  split at h
  · rename_i hn
    cases h
    exact announces_field hb (Nat.lt_succ_of_le hn)
  · cases h

theorem toNat_ofNat_byte {n : Nat} (h : n < 256) : (UInt8.ofNat n).toNat = n := by
  simp [UInt8.toNat_ofNat', Nat.mod_eq_of_lt h]

theorem ofByte_number {n : Nat} (h : n < 0x80) :
    Form.ofByte (UInt8.ofNat n) = .constant (.int n) := by
  rw [Form.ofByte, toNat_ofNat_byte (show n < 256 by omega), if_pos h]

theorem ofByte_negative {n : Nat} (hlo : 0xe0 ≤ n) (hhi : n < 0x100) :
    Form.ofByte (UInt8.ofNat n) = .constant (.int ((n : Int) - 0x100)) := by
  rw [Form.ofByte, toNat_ofNat_byte hhi, if_neg (show ¬n < 0x80 by omega),
    if_neg (show ¬n < 0x90 by omega), if_neg (show ¬n < 0xa0 by omega),
    if_neg (show ¬n < 0xc0 by omega), if_pos hlo]

theorem ofByte_map {n : Nat} (h : n < 16) :
    Form.ofByte (UInt8.ofNat (0x80 + n)) = .map (.fixed n) := by
  rw [Form.ofByte, toNat_ofNat_byte (show 0x80 + n < 256 by omega),
    if_neg (show ¬0x80 + n < 0x80 by omega), if_pos (show 0x80 + n < 0x90 by omega),
    Nat.add_sub_cancel_left]

theorem ofByte_array {n : Nat} (h : n < 16) :
    Form.ofByte (UInt8.ofNat (0x90 + n)) = .array (.fixed n) := by
  rw [Form.ofByte, toNat_ofNat_byte (show 0x90 + n < 256 by omega),
    if_neg (show ¬0x90 + n < 0x80 by omega), if_neg (show ¬0x90 + n < 0x90 by omega),
    if_pos (show 0x90 + n < 0xa0 by omega), Nat.add_sub_cancel_left]

theorem ofByte_text {n : Nat} (h : n < 32) :
    Form.ofByte (UInt8.ofNat (0xa0 + n)) = .text (.fixed n) := by
  rw [Form.ofByte, toNat_ofNat_byte (show 0xa0 + n < 256 by omega),
    if_neg (show ¬0xa0 + n < 0x80 by omega), if_neg (show ¬0xa0 + n < 0x90 by omega),
    if_neg (show ¬0xa0 + n < 0xa0 by omega), if_pos (show 0xa0 + n < 0xc0 by omega),
    Nat.add_sub_cancel_left]

theorem announces_textHead {n : Nat} {head : Bytes} (h : textHead n = .ok head) :
    Announces .text n head := by
  unfold textHead at h
  split at h
  · rename_i hn
    cases h
    exact announces_fixed (ofByte_text hn)
  · split at h
    · rename_i hn
      cases h
      exact announces_field rfl hn
    · split at h
      · rename_i hn
        cases h
        exact announces_field rfl hn
      · exact announces_longHead rfl h

theorem announces_binaryHead {n : Nat} {head : Bytes} (h : binaryHead n = .ok head) :
    Announces .binary n head := by
  unfold binaryHead at h
  split at h
  · rename_i hn
    cases h
    exact announces_field rfl hn
  · split at h
    · rename_i hn
      cases h
      exact announces_field rfl hn
    · exact announces_longHead rfl h

theorem announces_arrayHead {n : Nat} {head : Bytes} (h : arrayHead n = .ok head) :
    Announces .array n head := by
  unfold arrayHead at h
  split at h
  · rename_i hn
    cases h
    exact announces_fixed (ofByte_array hn)
  · split at h
    · rename_i hn
      cases h
      exact announces_field rfl hn
    · exact announces_longHead rfl h

theorem announces_mapHead {n : Nat} {head : Bytes} (h : mapHead n = .ok head) :
    Announces .map n head := by
  unfold mapHead at h
  split at h
  · rename_i hn
    cases h
    exact announces_fixed (ofByte_map hn)
  · split at h
    · rename_i hn
      cases h
      exact announces_field rfl hn
    · exact announces_longHead rfl h

theorem announces_extHead {n : Nat} {head : Bytes} (h : extHead n = .ok head) :
    Announces .ext n head := by
  unfold extHead at h
  by_cases h1 : n = 1
  · simp only [h1, if_true] at h ⊢
    cases h
    exact announces_fixed rfl
  by_cases h2 : n = 2
  · simp [h2] at h ⊢
    cases h
    exact announces_fixed rfl
  by_cases h4 : n = 4
  · simp [h4] at h ⊢
    cases h
    exact announces_fixed rfl
  by_cases h8 : n = 8
  · simp [h8] at h ⊢
    cases h
    exact announces_fixed rfl
  by_cases h16 : n = 16
  · simp [h16] at h ⊢
    cases h
    exact announces_fixed rfl
  simp only [h1, h2, h4, h8, h16, if_false] at h
  split at h
  · rename_i hn
    cases h
    exact announces_field rfl hn
  · split at h
    · rename_i hn
      cases h
      exact announces_field rfl hn
    · exact announces_longHead rfl h

end TupleClient.Wire
