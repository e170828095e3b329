import Mathlib.Tactic.SplitIfs
import TupleClient.Proofs.Wire.Acceptance

/-!
Of all forms that a value has on the wire, the one that is written is the shortest, and whatever can
be read can be written.
-/
namespace TupleClient.Wire

variable {b : UInt8} {length : Length} {field : Bytes} {n : Nat}

/-- What stands in front of a value can be written, in no more bytes than a first byte and the
field. -/
def HeadWithin (field : Bytes) (head : Except CodecError Bytes) : Prop :=
  ∃ bytes, head = .ok bytes ∧ bytes.length ≤ field.length + 1

theorem headWithin_byte (marker : UInt8) : HeadWithin field (.ok [marker]) :=
  ⟨[marker], rfl, Nat.le_add_left ..⟩

theorem headWithin_field {width : Nat} (marker : UInt8) (h : width ≤ field.length) :
    HeadWithin field (.ok (marker :: Bytes.ofNat width n)) :=
  ⟨_, rfl, by rwa [List.length_cons, Bytes.length_ofNat, Nat.add_le_add_iff_right]⟩

theorem headWithin_longHead (what : Sized) (marker : UInt8) (hn : n < 0x100000000)
    (h : 4 ≤ field.length) : HeadWithin field (longHead what marker n) := by
  have hle : n ≤ maxUnsigned32 := Nat.le_of_lt_succ hn
  rw [longHead, if_pos hle]
  exact headWithin_field marker h

theorem Length.Gives.fits {width : Nat} (h : (Length.field width).Gives n field) :
    field.length = width ∧ n < Bytes.limit width := by
  cases h with
  | field width hn => exact ⟨Bytes.length_ofNat width n, hn⟩

theorem headWithin_textHead (hb : Begins b (.text length)) (h : length.Gives n field) :
    HeadWithin field (textHead n) := by
  have hfits : n < 32 ∨ (field.length = 1 ∧ n < 0x100) ∨ (field.length = 2 ∧ n < 0x10000) ∨
      (field.length = 4 ∧ n < 0x100000000) := by
    cases hb with
    | fixText hn =>
      cases h
      exact .inl hn
    | text8 => exact .inr (.inl h.fits)
    | text16 => exact .inr (.inr (.inl h.fits))
    | text32 => exact .inr (.inr (.inr h.fits))
  unfold textHead
  split
  · exact headWithin_byte _
  split
  · exact headWithin_field _ (by omega)
  split
  · exact headWithin_field _ (by omega)
  · exact headWithin_longHead _ _ (by omega) (by omega)

theorem headWithin_binaryHead (hb : Begins b (.binary length)) (h : length.Gives n field) :
    HeadWithin field (binaryHead n) := by
  have hfits : (field.length = 1 ∧ n < 0x100) ∨ (field.length = 2 ∧ n < 0x10000) ∨
      (field.length = 4 ∧ n < 0x100000000) := by
    cases hb with
    | binary8 => exact .inl h.fits
    | binary16 => exact .inr (.inl h.fits)
    | binary32 => exact .inr (.inr h.fits)
  unfold binaryHead
  split
  · exact headWithin_field _ (by omega)
  split
  · exact headWithin_field _ (by omega)
  · exact headWithin_longHead _ _ (by omega) (by omega)

theorem headWithin_partsHead {what : Sized} {small short long : UInt8}
    (hfits : n < 16 ∨ (field.length = 2 ∧ n < 0x10000) ∨ (field.length = 4 ∧ n < 0x100000000)) :
    HeadWithin field (if n < 16 then .ok [small]
      else if n < 0x10000 then .ok (short :: Bytes.ofNat 2 n)
      else longHead what long n) := by
  split
  · exact headWithin_byte _
  split
  · exact headWithin_field _ (by omega)
  · exact headWithin_longHead _ _ (by omega) (by omega)

theorem headWithin_arrayHead (hb : Begins b (.array length)) (h : length.Gives n field) :
    HeadWithin field (arrayHead n) := by
  refine headWithin_partsHead ?_
  cases hb with
  | fixArray hn =>
    cases h
    exact .inl hn
  | array16 => exact .inr (.inl h.fits)
  | array32 => exact .inr (.inr h.fits)

theorem headWithin_mapHead (hb : Begins b (.map length)) (h : length.Gives n field) :
    HeadWithin field (mapHead n) := by
  refine headWithin_partsHead ?_
  cases hb with
  | fixMap hn =>
    cases h
    exact .inl hn
  | map16 => exact .inr (.inl h.fits)
  | map32 => exact .inr (.inr h.fits)

theorem headWithin_extHead (hb : Begins b (.ext length)) (h : length.Gives n field) :
    HeadWithin field (extHead n) := by
  have hfits : (n = 1 ∨ n = 2 ∨ n = 4 ∨ n = 8 ∨ n = 16) ∨ (field.length = 1 ∧ n < 0x100) ∨
      (field.length = 2 ∧ n < 0x10000) ∨ (field.length = 4 ∧ n < 0x100000000) := by
    cases hb with
    | ext8 => exact .inr (.inl h.fits)
    | ext16 => exact .inr (.inr (.inl h.fits))
    | ext32 => exact .inr (.inr (.inr h.fits))
    | _ =>
      cases h
      exact .inl (by decide)
  unfold extHead
  split
  · exact headWithin_byte _
  split
  · exact headWithin_byte _
  split
  · exact headWithin_byte _
  split
  · exact headWithin_byte _
  split
  · exact headWithin_byte _
  split
  · exact headWithin_field _ (by omega)
  split
  · exact headWithin_field _ (by omega)
  · exact headWithin_longHead _ _ (by omega) (by omega)

theorem intBytes_small {i : Int} (hlo : -0x20 ≤ i) (hhi : i < 0x80) :
    intBytes i = .ok (Bytes.ofInt 1 i) := by
  have hrange : ¬(i < minSigned64 ∨ maxUnsigned64 < i) := by
    rw [minSigned64, maxUnsigned64]
    omega
  rw [intBytes, if_neg hrange, if_pos hhi, if_pos hlo, ite_self]

/-- A number that fits a field, with or without a sign, is written in no more bytes than a first
byte and that field. -/
theorem intBytes_within {i : Int} {width : Nat}
    (hwidth : width = 1 ∨ width = 2 ∨ width = 4 ∨ width = 8)
    (hlo : -(Bytes.limit width : Int) ≤ 2 * i) (hhi : i < Bytes.limit width) :
    ∃ e, intBytes i = .ok e ∧ e.length ≤ width + 1 := by
  have hfits : (width = 1 ∧ -0x80 ≤ i ∧ i < 0x100) ∨ (width = 2 ∧ -0x8000 ≤ i ∧ i < 0x10000) ∨
      (width = 4 ∧ -0x80000000 ≤ i ∧ i < 0x100000000) ∨
      (width = 8 ∧ minSigned64 ≤ i ∧ i ≤ maxUnsigned64) := by
    rcases hwidth with rfl | rfl | rfl | rfl
    · rw [limit_one] at hlo hhi
      omega
    · rw [limit_two] at hlo hhi
      omega
    · rw [limit_four] at hlo hhi
      omega
    · rw [limit_eight] at hlo hhi
      rw [minSigned64, maxUnsigned64]
      omega
  have hrange : ¬(i < minSigned64 ∨ maxUnsigned64 < i) := by
    rw [minSigned64, maxUnsigned64] at *
    omega
  rw [intBytes, if_neg hrange]
  clear hrange
  split
  · refine ⟨_, rfl, ?_⟩
    split_ifs
    all_goals
      simp only [List.length_cons, Bytes.length_ofInt]
      omega
  · refine ⟨_, rfl, ?_⟩
    split_ifs
    all_goals
      simp only [List.length_cons, Bytes.length_ofInt]
      omega

/-- A body behind a head, in no more bytes than a body behind a first byte and the field. -/
theorem HeadWithin.append {head : Except CodecError Bytes} (h : HeadWithin field head) (b : UInt8)
    {written body : Bytes} (hle : written.length ≤ body.length) :
    ∃ e, (do let bytes ← head; .ok (bytes ++ written)) = Except.ok e ∧
      e.length ≤ (b :: (field ++ body)).length := by
  obtain ⟨bytes, rfl, hbytes⟩ := h
  refine ⟨bytes ++ written, rfl, ?_⟩
  simp only [List.length_append, List.length_cons]
  omega

def Rewrites (v : Value) : Prop :=
  ∀ bs, Spelling v bs → v.canonical = v ∧ ∃ e, encode v = .ok e ∧ e.length ≤ bs.length

theorem encode_constant {v : Value} (hb : Begins b (.constant v)) :
    v.canonical = v ∧ ∃ e, encode v = .ok e ∧ e.length ≤ 1 := by
  cases hb with
  | @number n hn =>
    refine ⟨rfl, Bytes.ofInt 1 n, ?_, Nat.le_refl 1⟩
    rw [encode_int, intBytes_small (by omega) (by omega)]
  | @negative n hn =>
    refine ⟨rfl, Bytes.ofInt 1 (n - 32), ?_, Nat.le_refl 1⟩
    rw [encode_int, intBytes_small (by omega) (by omega)]
  | _ => exact ⟨rfl, _, rfl, Nat.le_refl 1⟩

theorem Begins.unsigned_width {width : Nat} (hb : Begins b (.unsigned width)) :
    width = 1 ∨ width = 2 ∨ width = 4 ∨ width = 8 := by
  cases hb <;> decide

theorem Begins.signed_width {width : Nat} (hb : Begins b (.signed width)) :
    width = 1 ∨ width = 2 ∨ width = 4 ∨ width = 8 := by
  cases hb <;> decide

theorem rewrites_of_isScalar {v : Value} (hv : v.IsScalar) : Rewrites v := by
  intro bs h
  cases h with
  | array | map => cases hv
  | constant hb => exact encode_constant hb
  | @unsigned b width n hb hn =>
    refine ⟨rfl, ?_⟩
    rw [encode_int, List.length_cons, Bytes.length_ofNat]
    exact intBytes_within hb.unsigned_width (by omega) (by omega)
  | @signed b width i hb hlo hhi =>
    have hpos := Bytes.limit_pos width
    refine ⟨rfl, ?_⟩
    rw [encode_int, List.length_cons, Bytes.length_ofInt]
    exact intBytes_within hb.signed_width hlo (by omega)
  | float32 hb bits => exact ⟨rfl, _, rfl, by simp⟩
  | float64 hb bits => exact ⟨rfl, _, rfl, by simp⟩
  | @text b length field s hb hlength =>
    have hsize : s.utf8ByteSize = (Bytes.ofText s).length := by simp [Bytes.ofText]
    refine ⟨rfl, ?_⟩
    rw [encode_text, hsize]
    exact (headWithin_textHead hb hlength).append b (Nat.le_refl _)
  | @binary b length field data hb hlength =>
    refine ⟨rfl, ?_⟩
    rw [encode_binary]
    exact (headWithin_binaryHead hb hlength).append b (Nat.le_refl _)
  | @uuid b length field hb hlength u =>
    refine ⟨rfl, ?_⟩
    rw [← u.length_eq] at hlength
    rw [encode_uuid]
    exact (headWithin_extHead hb hlength).append b (Nat.le_refl _)
  | @ext b length field data subtype hb hlength hother =>
    refine ⟨by rw [Value.canonical, dif_neg hother], ?_⟩
    rw [encode_ext]
    exact (headWithin_extHead hb hlength).append b (Nat.le_refl _)

theorem rewrites_items {items : List Value} (h : ∀ v ∈ items, Rewrites v) {body : Bytes}
    (hbody : ItemsSpelling items body) :
    items.map Value.canonical = items ∧
      ∃ written, encodeItems items = .ok written ∧ written.length ≤ body.length := by
  induction items generalizing body with
  | nil => exact ⟨rfl, [], rfl, Nat.zero_le _⟩
  | cons v vs ih =>
    cases hbody with
    | cons hv hvs =>
      obtain ⟨hcanonical, first, hfirst, hle⟩ := h v List.mem_cons_self _ hv
      obtain ⟨hothers, others, hwritten, hall⟩ :=
        ih (fun w hw => h w (List.mem_cons_of_mem v hw)) hvs
      refine ⟨by rw [List.map_cons, hcanonical, hothers], first ++ others, ?_, ?_⟩
      · rw [encodeItems, hfirst, hwritten]
        rfl
      · simp only [List.length_append]
        omega

theorem rewrites_entries {entries : List (Value × Value)}
    (h : ∀ e ∈ entries, Rewrites e.1 ∧ Rewrites e.2) {body : Bytes}
    (hbody : EntriesSpelling entries body) :
    entries.map (fun e => (e.1.canonical, e.2.canonical)) = entries ∧
      ∃ written, encodeEntries entries = .ok written ∧ written.length ≤ body.length := by
  induction entries generalizing body with
  | nil => exact ⟨rfl, [], rfl, Nat.zero_le _⟩
  | cons e es ih =>
    cases hbody with
    | @cons k v es keyBytes valueBytes rest hk hv hes =>
      obtain ⟨hrewritesKey, hrewritesValue⟩ := h (k, v) List.mem_cons_self
      obtain ⟨hkey, key, hkeyWritten, hkeyLe⟩ := hrewritesKey _ hk
      obtain ⟨hvalue, value, hvalueWritten, hvalueLe⟩ := hrewritesValue _ hv
      obtain ⟨hothers, others, hwritten, hall⟩ :=
        ih (fun x hx => h x (List.mem_cons_of_mem _ hx)) hes
      refine ⟨by rw [List.map_cons, hkey, hvalue, hothers], key ++ value ++ others, ?_, ?_⟩
      · rw [encodeEntries, hkeyWritten, hvalueWritten, hwritten]
        rfl
      · simp only [List.length_append]
        omega

theorem rewrites (v : Value) : Rewrites v := by
  induction v using Value.induct with
  | scalar v hv => exact rewrites_of_isScalar hv
  | array items ih =>
    intro bs h
    cases h with
    | constant hb => cases hb
    | @array b length field body items hb hlength hitems =>
      obtain ⟨hcanonical, written, hwritten, hle⟩ := rewrites_items ih hitems
      refine ⟨by rw [Value.canonical, Value.canonicalItems_eq, hcanonical], ?_⟩
      rw [encode_array, hwritten]
      exact (headWithin_arrayHead hb hlength).append b hle
  | map entries ih =>
    intro bs h
    cases h with
    | constant hb => cases hb
    | @map b length field body entries hb hlength hentries =>
      obtain ⟨hcanonical, written, hwritten, hle⟩ := rewrites_entries ih hentries
      refine ⟨by rw [Value.canonical, Value.canonicalEntries_eq, hcanonical], ?_⟩
      rw [encode_map, hwritten]
      exact (headWithin_mapHead hb hlength).append b hle

theorem encode_of_decode {bs : Bytes} {v : Value} {n : Nat} (h : decode bs = .ok (v, n)) :
    ∃ e, encode v = .ok e ∧ e.length ≤ n ∧ decode e = .ok (v, e.length) := by
  obtain ⟨⟨w, rest⟩, hread, hn⟩ := bind_ok h
  obtain ⟨used, rfl, hspelling, hnesting⟩ := read_eq_ok_iff.1 hread
  obtain ⟨hcanonical, e, hwritten, hle⟩ := rewrites w used hspelling
  cases hn
  rw [List.length_append, Nat.add_sub_cancel]
  have hback := decode_written hwritten []
  rw [if_pos hnesting, List.append_nil, hcanonical] at hback
  exact ⟨e, hwritten, hle, hback⟩

/-- Whatever is read can be written again. What is written is read as the same value, to the last
bit of its floating-point numbers, and no other bytes that are read as that value are fewer. -/
theorem encode_of_decode_shortest (bs : Bytes) (v : Value) (n : Nat) (h : decode bs = .ok (v, n)) :
    ∃ e, encode v = .ok e ∧ e.length ≤ n ∧ decode e = .ok (v, e.length) ∧
      ∀ other m, decode other = .ok (v, m) → e.length ≤ m := by
  obtain ⟨e, hwritten, hle, hback⟩ := encode_of_decode h
  refine ⟨e, hwritten, hle, hback, fun other m hother => ?_⟩
  obtain ⟨e', hwritten', hle', -⟩ := encode_of_decode hother
  rw [hwritten, Except.ok.injEq] at hwritten'
  rwa [hwritten']

/-- An array of three under a head for long arrays: a small number in a signed field of eight bytes,
a UUID under a head for long extensions, and a not-a-number. -/
theorem encode_of_decode_shortest_of_long_forms :
    let long : Bytes := [0xdd, 0, 0, 0, 3] ++ (0xd3 :: [0, 0, 0, 0, 0, 0, 1, 0]) ++
      ([0xc9, 0, 0, 0, 16, 2] ++ List.replicate 16 9) ++ [0xca, 0x7f, 0xc0, 0, 1]
    let v : Value := .array [.int 256, .uuid ⟨.replicate 16 9, rfl⟩, .float32 0x7fc00001]
    decode long = .ok (v, 41) ∧ ∃ e, encode v = .ok e ∧ e.length ≤ 41 ∧
      decode e = .ok (v, e.length) ∧ ∀ other m, decode other = .ok (v, m) → e.length ≤ m := by
  intro long v
  have hlong : decode long = .ok (v, 41) := rfl
  exact ⟨hlong, encode_of_decode_shortest long v 41 hlong⟩

end TupleClient.Wire
