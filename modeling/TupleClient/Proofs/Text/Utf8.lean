import Mathlib.Algebra.Ring.Nat
import TupleClient.Text.Utf8

/-!
UTF-8 as it is written. A character is a first byte, which says how many bytes follow, and these,
of six bits each. From that form come the order of texts, which is the order of their bytes, and
that the reading which replaces broken bytes replaces nothing in a text.
-/
namespace TupleClient

theorem Bytes.ofText_eq (s : String) :
    Bytes.ofText s = s.toList.flatMap String.utf8EncodeChar := by
  have h : s.toByteArray = s.toList.utf8Encode := by simp
  rw [Bytes.ofText, String.toUTF8, h, List.utf8Encode, List.toList_data_toByteArray]

namespace Utf8

/-- The last `count` bytes of a character with this code point: six bits each. -/
def continuation : (count : Nat) → (v : Nat) → Bytes
  | 0, _ => []
  | count + 1, v => UInt8.ofNat (v / 64 ^ count % 64 + 0x80) :: continuation count v

@[simp] theorem length_continuation (count v : Nat) : (continuation count v).length = count := by
  induction count with
  | zero => rfl
  | succ count ih => simp [continuation, ih]

/-- How many bytes follow the first byte of a character with this code point, and the first byte. -/
inductive Form (v : Nat) : (count lead : Nat) → Prop
  | one (h : v < 0x80) : Form v 0 v
  | two (h : 0x80 ≤ v ∧ v < 0x800) : Form v 1 (0xc0 + v / 64)
  | three (h : 0x800 ≤ v ∧ v < 0x10000) : Form v 2 (0xe0 + v / 4096)
  | four (h : 0x10000 ≤ v ∧ v < 0x110000) : Form v 3 (0xf0 + v / 262144)

theorem exists_form (c : Char) :
    ∃ count lead, Form c.toNat count lead ∧
      String.utf8EncodeChar c = UInt8.ofNat lead :: continuation count c.toNat := by
  have hlast : c.toNat < 0x110000 := by
    have := c.valid
    simp only [UInt32.isValidChar, Nat.isValidChar] at this
    simp only [Char.toNat]
    omega
  unfold String.utf8EncodeChar
  simp only [← Char.toNat.eq_1]
  generalize c.toNat = v at hlast ⊢
  by_cases h1 : v < 0x80
  · exact ⟨0, v, .one h1, by rw [if_pos (by omega)]; rfl⟩
  by_cases h2 : v < 0x800
  · refine ⟨1, _, .two ⟨by omega, h2⟩, ?_⟩
    rw [if_neg (by omega), if_pos (by omega), show v / 64 % 32 + 192 = 0xc0 + v / 64 by omega]
    simp [continuation]
  by_cases h3 : v < 0x10000
  · refine ⟨2, _, .three ⟨by omega, h3⟩, ?_⟩
    rw [if_neg (by omega), if_neg (by omega), if_pos (by omega),
      show v / 4096 % 16 + 224 = 0xe0 + v / 4096 by omega]
    simp [continuation]
  · refine ⟨3, _, .four ⟨by omega, hlast⟩, ?_⟩
    rw [if_neg (by omega), if_neg (by omega), if_neg (by omega),
      show v / 262144 % 8 + 240 = 0xf0 + v / 262144 by omega]
    simp [continuation]

/-! The order of code points is the order of their bytes. -/

theorem continuation_append_lt {count v w : Nat} (h : v < w)
    (hhigh : v / 64 ^ count = w / 64 ^ count) (s t : Bytes) :
    continuation count v ++ s < continuation count w ++ t := by
  induction count with
  | zero => simp at hhigh; omega
  | succ count ih =>
    have hdiv (x : Nat) : x / 64 ^ (count + 1) = x / 64 ^ count / 64 := by
      rw [Nat.pow_succ, Nat.div_div_eq_div_mul]
    rw [hdiv, hdiv] at hhigh
    have hle : v / 64 ^ count ≤ w / 64 ^ count := Nat.div_le_div_right (by omega)
    simp only [continuation, List.cons_append, List.cons_lt_cons_iff]
    by_cases heq : v / 64 ^ count = w / 64 ^ count
    · exact .inr ⟨by rw [heq], ih heq⟩
    · left
      simp only [UInt8.lt_iff_toNat_lt, UInt8.toNat_ofNat']
      omega

theorem Form.lead_lt {v w count count' lead lead' : Nat} (hv : Form v count lead)
    (hw : Form w count' lead') (h : v < w) :
    lead < lead' ∨ lead = lead' ∧ count = count' ∧ v / 64 ^ count = w / 64 ^ count := by
  cases hv <;> cases hw <;> omega

theorem Form.lead_lt_256 {v count lead : Nat} (h : Form v count lead) : lead < 256 := by
  cases h <;> omega

theorem encodeChar_append_lt {c d : Char} (h : c < d) (s t : Bytes) :
    String.utf8EncodeChar c ++ s < String.utf8EncodeChar d ++ t := by
  obtain ⟨count, lead, hc, hencode⟩ := exists_form c
  obtain ⟨count', lead', hd, hencode'⟩ := exists_form d
  have hlead := hc.lead_lt_256
  have hlead' := hd.lead_lt_256
  rw [hencode, hencode', List.cons_append, List.cons_append, List.cons_lt_cons_iff]
  obtain hlt | ⟨rfl, rfl, hhigh⟩ := hc.lead_lt hd h
  · left
    simp only [UInt8.lt_iff_toNat_lt, UInt8.toNat_ofNat']
    omega
  · exact .inr ⟨rfl, continuation_append_lt h hhigh s t⟩

theorem flatMap_encodeChar_lt {cs ds : List Char} (h : cs < ds) :
    cs.flatMap String.utf8EncodeChar < ds.flatMap String.utf8EncodeChar := by
  induction cs generalizing ds with
  | nil =>
    cases ds with
    | nil => exact absurd h (List.not_lt_nil _)
    | cons d ds =>
      obtain ⟨count, lead, -, hencode⟩ := exists_form d
      rw [List.flatMap_nil, List.flatMap_cons, hencode]
      exact List.nil_lt_cons _ _
  | cons c cs ih =>
    cases ds with
    | nil => exact absurd h (List.not_lt_nil _)
    | cons d ds =>
      rw [List.flatMap_cons, List.flatMap_cons]
      obtain hlt | ⟨rfl, htail⟩ := List.cons_lt_cons_iff.1 h
      · exact encodeChar_append_lt hlt _ _
      · exact List.append_left_lt (ih htail)

theorem follow_continuation {count v : Nat} (seen bits : Nat) {low high : UInt8} (rest : Bytes)
    (h : ∀ b ∈ (continuation count v).head?, low ≤ b ∧ b ≤ high) :
    follow seen bits count low high (continuation count v ++ rest) =
      .char (Char.ofNat (64 ^ count * bits + v % 64 ^ count)) (seen + count) := by
  induction count generalizing seen bits low high with
  | zero => simp [follow, Nat.mod_one]
  | succ count ih =>
    have hwithin : ∀ b ∈ (continuation count v).head?, (0x80 : UInt8) ≤ b ∧ b ≤ 0xbf := by
      cases count with
      | zero => simp [continuation]
      | succ count =>
        simp [continuation, UInt8.le_iff_toNat_le]
        omega
    have hbyte : (UInt8.ofNat (v / 64 ^ count % 64 + 0x80)).toNat % 64 = v / 64 ^ count % 64 := by
      simp only [UInt8.toNat_ofNat']
      omega
    have hvalue : 64 ^ count * (64 * bits + v / 64 ^ count % 64) + v % 64 ^ count =
        64 ^ (count + 1) * bits + v % 64 ^ (count + 1) := by
      rw [Nat.pow_succ, Nat.mod_mul]
      grind
    rw [continuation, List.cons_append, follow, if_pos (h _ rfl), ih _ _ hwithin, hbyte, hvalue,
      Nat.add_right_comm, Nat.add_assoc]


theorem Form.exists_lead {v count lead : Nat} (h : Form v count lead) (hv : v.isValidChar) :
    ∃ l, lead? (UInt8.ofNat lead) = some l ∧ l.following = count ∧
      64 ^ count * l.bits + v % 64 ^ count = v ∧
      ∀ b ∈ (continuation count v).head?, l.low ≤ b ∧ b ≤ l.high := by
  have hlead := h.lead_lt_256
  have hbyte : (UInt8.ofNat lead).toNat = lead := by simp; omega
  have hsurrogate : v < 0xd800 ∨ 0xdfff < v := by
    simp only [Nat.isValidChar] at hv
    omega
  unfold lead?
  simp only [hbyte, beq_iff_eq]
  cases h with
  | one h =>
    exact ⟨_, if_pos h, rfl, by simp [Nat.mod_one], nofun⟩
  | two h =>
    rw [if_neg (by omega), if_neg (by omega), if_pos (by omega)]
    refine ⟨_, rfl, rfl, by dsimp only; omega, ?_⟩
    simp [continuation, UInt8.le_iff_toNat_le]
    omega
  | three h =>
    rw [if_neg (by omega), if_neg (by omega), if_neg (by omega)]
    simp only [continuation, List.head?_cons, Option.mem_def, Option.some.injEq, forall_eq',
      UInt8.le_iff_toNat_le]
    split
    · exact ⟨_, rfl, rfl, by dsimp only; omega, by simp; omega⟩
    split
    · exact ⟨_, rfl, rfl, by dsimp only; omega, by simp; omega⟩
    rw [if_pos (by omega)]
    exact ⟨_, rfl, rfl, by dsimp only; omega, by simp; omega⟩
  | four h =>
    rw [if_neg (by omega), if_neg (by omega), if_neg (by omega), if_neg (by omega),
      if_neg (by omega), if_neg (by omega)]
    simp only [continuation, List.head?_cons, Option.mem_def, Option.some.injEq, forall_eq',
      UInt8.le_iff_toNat_le]
    split
    · exact ⟨_, rfl, rfl, by dsimp only; omega, by simp; omega⟩
    split
    · exact ⟨_, rfl, rfl, by dsimp only; omega, by simp; omega⟩
    rw [if_pos (by omega)]
    exact ⟨_, rfl, rfl, by dsimp only; omega, by simp; omega⟩

theorem piece_encodeChar (c : Char) (rest : Bytes) :
    ∃ b bs, String.utf8EncodeChar c = b :: bs ∧
      piece b (bs ++ rest) = .char c (bs.length + 1) := by
  obtain ⟨count, lead, hform, hencode⟩ := exists_form c
  obtain ⟨l, hl, rfl, hvalue, hrange⟩ := hform.exists_lead c.valid
  refine ⟨_, _, hencode, ?_⟩
  simp only [piece, hl]
  rw [follow_continuation _ _ _ hrange, hvalue, Char.ofNat_toNat, Nat.add_comm]
  simp [length_continuation]

theorem lossy_flatMap (cs : List Char) : lossy (cs.flatMap String.utf8EncodeChar) = cs := by
  induction cs with
  | nil => rw [List.flatMap_nil, lossy]
  | cons c cs ih =>
    obtain ⟨b, bs, hencode, hpiece⟩ := piece_encodeChar c (cs.flatMap String.utf8EncodeChar)
    rw [List.flatMap_cons, hencode, List.cons_append, lossy]
    simp [hpiece, ih]

theorem lossy_ofText (s : String) : lossy (Bytes.ofText s) = s.toList := by
  rw [Bytes.ofText_eq, lossy_flatMap]

end Utf8

theorem Bytes.ofText_lt {s t : String} (h : s < t) : Bytes.ofText s < Bytes.ofText t := by
  rw [Bytes.ofText_eq, Bytes.ofText_eq]
  exact Utf8.flatMap_encodeChar_lt h

/-! Bytes below 128 -/

namespace Bytes

def asciiChar (b : UInt8) : Char := Char.ofNat b.toNat

theorem toNat_asciiChar {b : UInt8} (h : b.toNat < 0x80) : (asciiChar b).toNat = b.toNat := by
  have hvalid : b.toNat.isValidChar := .inl (by omega)
  have hchar : asciiChar b = Char.ofNatAux b.toNat hvalid := dif_pos hvalid
  rw [hchar]
  exact UInt32.toNat_ofNatLT

theorem ofText_ascii {bs : Bytes} (h : ∀ b ∈ bs, b.toNat < 0x80) :
    ofText (String.ofList (bs.map asciiChar)) = bs := by
  rw [ofText_eq, String.toList_ofList]
  induction bs with
  | nil => rfl
  | cons b bs ih =>
    obtain ⟨hb, hbs⟩ := List.forall_mem_cons.1 h
    have hval : (asciiChar b).val.toNat = b.toNat := toNat_asciiChar hb
    have hbyte : String.utf8EncodeChar (asciiChar b) = [b] := by
      simp only [String.utf8EncodeChar, hval, if_pos (show b.toNat ≤ 127 by omega),
        UInt8.ofNat_toNat]
    rw [List.map_cons, List.flatMap_cons, hbyte, ih hbs]
    rfl

theorem toText?_ascii {bs : Bytes} (h : ∀ b ∈ bs, b.toNat < 0x80) :
    bs.toText? = some (String.ofList (bs.map asciiChar)) := by
  have htext := toText?_ofText (String.ofList (bs.map asciiChar))
  rwa [ofText_ascii h] at htext

end Bytes

end TupleClient
