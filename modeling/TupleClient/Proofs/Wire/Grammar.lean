import Mathlib.Tactic.IntervalCases
import TupleClient.Proofs.Wire.Head

/-!
The grammar of the wire format: which first byte announces which form, and what bytes are a value,
in the shortest form or in any other.
-/
namespace TupleClient.Wire

/-- The first bytes, with the form that each of them announces. Only `c1` has none. -/
inductive Begins : UInt8 → Form → Prop where
  | number {n : Nat} (h : n < 0x80) : Begins (.ofNat n) (.constant (.int n))
  | fixMap {n : Nat} (h : n < 16) : Begins (.ofNat (0x80 + n)) (.map (.fixed n))
  | fixArray {n : Nat} (h : n < 16) : Begins (.ofNat (0x90 + n)) (.array (.fixed n))
  | fixText {n : Nat} (h : n < 32) : Begins (.ofNat (0xa0 + n)) (.text (.fixed n))
  | nil : Begins 0xc0 (.constant .nil)
  | no : Begins 0xc2 (.constant (.bool false))
  | yes : Begins 0xc3 (.constant (.bool true))
  | binary8 : Begins 0xc4 (.binary (.field 1))
  | binary16 : Begins 0xc5 (.binary (.field 2))
  | binary32 : Begins 0xc6 (.binary (.field 4))
  | ext8 : Begins 0xc7 (.ext (.field 1))
  | ext16 : Begins 0xc8 (.ext (.field 2))
  | ext32 : Begins 0xc9 (.ext (.field 4))
  | float32 : Begins 0xca .float32
  | float64 : Begins 0xcb .float64
  | unsigned8 : Begins 0xcc (.unsigned 1)
  | unsigned16 : Begins 0xcd (.unsigned 2)
  | unsigned32 : Begins 0xce (.unsigned 4)
  | unsigned64 : Begins 0xcf (.unsigned 8)
  | signed8 : Begins 0xd0 (.signed 1)
  | signed16 : Begins 0xd1 (.signed 2)
  | signed32 : Begins 0xd2 (.signed 4)
  | signed64 : Begins 0xd3 (.signed 8)
  | fixExt1 : Begins 0xd4 (.ext (.fixed 1))
  | fixExt2 : Begins 0xd5 (.ext (.fixed 2))
  | fixExt4 : Begins 0xd6 (.ext (.fixed 4))
  | fixExt8 : Begins 0xd7 (.ext (.fixed 8))
  | fixExt16 : Begins 0xd8 (.ext (.fixed 16))
  | text8 : Begins 0xd9 (.text (.field 1))
  | text16 : Begins 0xda (.text (.field 2))
  | text32 : Begins 0xdb (.text (.field 4))
  | array16 : Begins 0xdc (.array (.field 2))
  | array32 : Begins 0xdd (.array (.field 4))
  | map16 : Begins 0xde (.map (.field 2))
  | map32 : Begins 0xdf (.map (.field 4))
  | negative {n : Nat} (h : n < 32) : Begins (.ofNat (0xe0 + n)) (.constant (.int (n - 32)))

theorem Begins.ofByte_eq {b : UInt8} {form : Form} (h : Begins b form) : Form.ofByte b = form := by
  cases h with
  | number hn => exact ofByte_number hn
  | fixMap hn => exact ofByte_map hn
  | fixArray hn => exact ofByte_array hn
  | fixText hn => exact ofByte_text hn
  | @negative n hn =>
    rw [ofByte_negative (by omega) (by omega)]
    congr 2
    omega
  | _ => rfl

theorem exists_row {b : UInt8} {first : Nat} (size : Nat) (hlo : first ≤ b.toNat)
    (hhi : b.toNat < first + size) : ∃ n < size, b = UInt8.ofNat (first + n) := by
  refine ⟨b.toNat - first, by omega, ?_⟩
  rw [Nat.add_sub_cancel' hlo, UInt8.ofNat_toNat]

theorem begins_ofByte {b : UInt8} (hb : b ≠ 0xc1) : Begins b (Form.ofByte b) := by
  have hlt := b.toNat_lt
  by_cases hnumber : b.toNat < 0x80
  · obtain ⟨n, hn, rfl⟩ := exists_row 0x80 (Nat.zero_le _) (by omega)
    rw [Nat.zero_add, ofByte_number hn]
    exact .number hn
  by_cases hmap : b.toNat < 0x90
  · obtain ⟨n, hn, rfl⟩ := exists_row 16 (Nat.not_lt.1 hnumber) hmap
    rw [ofByte_map hn]
    exact .fixMap hn
  by_cases harray : b.toNat < 0xa0
  · obtain ⟨n, hn, rfl⟩ := exists_row 16 (Nat.not_lt.1 hmap) harray
    rw [ofByte_array hn]
    exact .fixArray hn
  by_cases htext : b.toNat < 0xc0
  · obtain ⟨n, hn, rfl⟩ := exists_row 32 (Nat.not_lt.1 harray) htext
    rw [ofByte_text hn]
    exact .fixText hn
  by_cases hsingle : b.toNat < 0xe0
  · obtain ⟨n, hn, rfl⟩ := exists_row 32 (Nat.not_lt.1 htext) hsingle
    interval_cases n
    case «1» => exact absurd rfl hb
    all_goals constructor
  · obtain ⟨n, hn, rfl⟩ := exists_row 32 (Nat.not_lt.1 hsingle) hlt
    have hbegins : Begins _ _ := Begins.negative hn
    rwa [hbegins.ofByte_eq]

mutual

/-- The bytes of a value in any of its wire forms. -/
inductive Spelling : Value → Bytes → Prop where
  | constant {b : UInt8} {v : Value} (hb : Begins b (.constant v)) : Spelling v [b]
  | unsigned {b : UInt8} {width n : Nat} (hb : Begins b (.unsigned width))
      (h : n < Bytes.limit width) : Spelling (.int n) (b :: Bytes.ofNat width n)
  | signed {b : UInt8} {width : Nat} {i : Int} (hb : Begins b (.signed width))
      (hlo : -(Bytes.limit width : Int) ≤ 2 * i) (hhi : 2 * i < Bytes.limit width) :
      Spelling (.int i) (b :: Bytes.ofInt width i)
  | float32 {b : UInt8} (hb : Begins b .float32) (bits : UInt32) :
      Spelling (.float32 bits) (b :: Bytes.ofNat 4 bits.toNat)
  | float64 {b : UInt8} (hb : Begins b .float64) (bits : UInt64) :
      Spelling (.float64 bits) (b :: Bytes.ofNat 8 bits.toNat)
  | text {b : UInt8} {length : Length} {field : Bytes} {s : String}
      (hb : Begins b (.text length)) (h : length.Gives (Bytes.ofText s).length field) :
      Spelling (.text s) (b :: (field ++ Bytes.ofText s))
  | binary {b : UInt8} {length : Length} {field data : Bytes} (hb : Begins b (.binary length))
      (h : length.Gives data.length field) : Spelling (.binary data) (b :: (field ++ data))
  | array {b : UInt8} {length : Length} {field body : Bytes} {items : List Value}
      (hb : Begins b (.array length)) (h : length.Gives items.length field)
      (hitems : ItemsSpelling items body) : Spelling (.array items) (b :: (field ++ body))
  | map {b : UInt8} {length : Length} {field body : Bytes} {entries : List (Value × Value)}
      (hb : Begins b (.map length)) (h : length.Gives entries.length field)
      (hentries : EntriesSpelling entries body) : Spelling (.map entries) (b :: (field ++ body))
  | uuid {b : UInt8} {length : Length} {field : Bytes} (hb : Begins b (.ext length))
      (h : length.Gives 16 field) (u : Uuid) : Spelling (.uuid u) (b :: (field ++ 2 :: u.bytes))
  | ext {b : UInt8} {length : Length} {field data : Bytes} {subtype : Int8}
      (hb : Begins b (.ext length)) (h : length.Gives data.length field)
      (hother : ¬(subtype = 2 ∧ data.length = 16)) :
      Spelling (.ext subtype data) (b :: (field ++ subtype.toUInt8 :: data))

inductive ItemsSpelling : List Value → Bytes → Prop where
  | nil : ItemsSpelling [] []
  | cons {v : Value} {vs : List Value} {first others : Bytes} (hv : Spelling v first)
      (hvs : ItemsSpelling vs others) : ItemsSpelling (v :: vs) (first ++ others)

inductive EntriesSpelling : List (Value × Value) → Bytes → Prop where
  | nil : EntriesSpelling [] []
  | cons {k v : Value} {es : List (Value × Value)} {key value others : Bytes}
      (hk : Spelling k key) (hv : Spelling v value) (hes : EntriesSpelling es others) :
      EntriesSpelling ((k, v) :: es) (key ++ (value ++ others))

end

theorem Spelling.length_pos {v : Value} {bs : Bytes} (h : Spelling v bs) : 0 < bs.length := by
  cases h <;> exact Nat.succ_pos _

theorem ItemsSpelling.length_le {items : List Value} {body : Bytes}
    (h : ItemsSpelling items body) : items.length ≤ body.length := by
  induction items generalizing body with
  | nil => exact Nat.zero_le _
  | cons v vs ih =>
    cases h with
    | cons hv hvs =>
      have hpos := hv.length_pos
      have hle := ih hvs
      rw [List.length_cons, List.length_append]
      omega

theorem EntriesSpelling.length_le {entries : List (Value × Value)} {body : Bytes}
    (h : EntriesSpelling entries body) : 2 * entries.length ≤ body.length := by
  induction entries generalizing body with
  | nil => exact Nat.zero_le _
  | cons e es ih =>
    cases h with
    | cons hk hv hes =>
      have hkpos := hk.length_pos
      have hvpos := hv.length_pos
      have hle := ih hes
      simp only [List.length_cons, List.length_append]
      omega

end TupleClient.Wire
