import TupleClient.Proofs.Wire.Head
import TupleClient.Proofs.Wire.Written

/-!
A written value is read back whole, whatever follows it, unless a part of it lies too deep; then
reading fails for that reason alone.
-/
namespace TupleClient.Wire

variable {levels : Nat} {rest : Bytes}

theorem readValue_constant {b : UInt8} {v : Value} (hb : Form.ofByte b = .constant v) :
    readValue (levels + 1) (b :: rest) = .ok (v, rest) := by
  rw [readValue, hb]

theorem readValue_unsigned {b : UInt8} {width : Nat} {i : Int}
    (hb : Form.ofByte b = .unsigned width) (h0 : 0 ≤ i) (h : i < Bytes.limit width) :
    readValue (levels + 1) (b :: (Bytes.ofInt width i ++ rest)) = .ok (.int i, rest) := by
  have hn : ((Bytes.ofInt width i).toNat : Int) = i := by
    rw [Bytes.ofInt_of_nonneg h0 h, Bytes.toNat_ofNat (by omega)]
    omega
  rw [readValue, hb]
  simp only [take_of_length (Bytes.length_ofInt width i), bind, Except.bind, hn]

theorem readValue_signed {b : UInt8} {width : Nat} {i : Int}
    (hb : Form.ofByte b = .signed width) (hlo : -(Bytes.limit width : Int) ≤ 2 * i)
    (hhi : 2 * i < Bytes.limit width) :
    readValue (levels + 1) (b :: (Bytes.ofInt width i ++ rest)) = .ok (.int i, rest) := by
  rw [readValue, hb]
  simp only [take_of_length (Bytes.length_ofInt width i), bind, Except.bind,
    Bytes.toInt_ofInt hlo hhi]

theorem limit_one : Bytes.limit 1 = 0x100 := rfl

theorem limit_two : Bytes.limit 2 = 0x10000 := rfl

theorem limit_four : Bytes.limit 4 = 0x100000000 := rfl

theorem limit_eight : Bytes.limit 8 = 0x10000000000000000 := rfl

theorem ofNat_one (n : Nat) : Bytes.ofNat 1 n = [UInt8.ofNat n] := by
  simp [Bytes.ofNat, Bytes.limit]

theorem readValue_small {i : Int} (h0 : 0 ≤ i) (h : i < 0x80) :
    readValue (levels + 1) (Bytes.ofInt 1 i ++ rest) = .ok (.int i, rest) := by
  have hb := ofByte_number (n := i.toNat) (by omega)
  rw [Int.toNat_of_nonneg h0] at hb
  rw [Bytes.ofInt_of_nonneg h0 (by rw [limit_one]; omega), ofNat_one]
  exact readValue_constant hb

theorem readValue_small_negative {i : Int} (h0 : -0x20 ≤ i) (h : i < 0) :
    readValue (levels + 1) (Bytes.ofInt 1 i ++ rest) = .ok (.int i, rest) := by
  have hmod : i % (Bytes.limit 1 : Int) = i + 0x100 := by
    rw [limit_one]
    omega
  have hb := ofByte_negative (n := (i + 0x100).toNat) (by omega) (by omega)
  rw [Int.toNat_of_nonneg (by omega), Int.add_sub_cancel] at hb
  rw [Bytes.ofInt, hmod, ofNat_one]
  exact readValue_constant hb

theorem readValue_intBytes {i : Int} {e : Bytes} (h : intBytes i = .ok e) :
    readValue (levels + 1) (e ++ rest) = .ok (.int i, rest) := by
  unfold intBytes at h
  split at h
  · cases h
  rename_i hrange
  simp only [minSigned64, maxUnsigned64] at hrange
  by_cases h0 : 0 ≤ i
  · rw [if_pos h0] at h
    cases h
    split
    · exact readValue_small h0 (by omega)
    split
    · exact readValue_unsigned rfl h0 (by rw [limit_one]; omega)
    split
    · exact readValue_unsigned rfl h0 (by rw [limit_two]; omega)
    split
    · exact readValue_unsigned rfl h0 (by rw [limit_four]; omega)
    · exact readValue_unsigned rfl h0 (by rw [limit_eight]; omega)
  · rw [if_neg h0] at h
    cases h
    split
    · exact readValue_small_negative (by omega) (by omega)
    split
    · exact readValue_signed rfl (by rw [limit_one]; omega) (by rw [limit_one]; omega)
    split
    · exact readValue_signed rfl (by rw [limit_two]; omega) (by rw [limit_two]; omega)
    split
    · exact readValue_signed rfl (by rw [limit_four]; omega) (by rw [limit_four]; omega)
    · exact readValue_signed rfl (by rw [limit_eight]; omega) (by rw [limit_eight]; omega)

theorem readValue_textHead {s : String} {head : Bytes} (h : textHead s.utf8ByteSize = .ok head) :
    readValue (levels + 1) (head ++ (Bytes.ofText s ++ rest)) = .ok (.text s, rest) := by
  obtain ⟨b, length, field, rfl, hb, hgives⟩ := announces_textHead h
  have hsize : s.utf8ByteSize = (Bytes.ofText s).length := by simp [Bytes.ofText]
  rw [hsize] at hgives
  rw [List.cons_append, readValue, hb]
  simp only [readText, hgives.readSized, bind, Except.bind, Bytes.toText?_ofText]

theorem readValue_binaryHead {bs head : Bytes} (h : binaryHead bs.length = .ok head) :
    readValue (levels + 1) (head ++ (bs ++ rest)) = .ok (.binary bs, rest) := by
  obtain ⟨b, length, field, rfl, hb, hgives⟩ := announces_binaryHead h
  rw [List.cons_append, readValue, hb]
  simp only [hgives.readSized, bind, Except.bind]

theorem readNat_one (b : UInt8) : readNat 1 (b :: rest) = .ok (b.toNat, rest) := by
  simp [readNat, take, Bytes.split?_eq, bind, Except.bind, Bytes.toNat, Bytes.toNatFrom]

theorem toInt8_toUInt8 (i : Int8) : (UInt8.ofNat i.toUInt8.toNat).toInt8 = i := by
  simp

theorem readValue_extBytes {subtype : Int8} {data e : Bytes} (h : extBytes subtype data = .ok e) :
    readValue (levels + 1) (e ++ rest) = .ok (extension subtype data, rest) := by
  unfold extBytes at h
  cases hhead : extHead data.length with
  | error _ =>
    rw [hhead] at h
    cases h
  | ok head =>
    rw [hhead] at h
    cases h
    obtain ⟨b, length, field, rfl, hb, hgives⟩ := announces_extHead hhead
    rw [List.append_assoc, List.cons_append, List.cons_append, readValue, hb]
    simp only [readExt, hgives.readLength, readNat_one, take_append, bind, Except.bind,
      toInt8_toUInt8]

theorem extension_eq_canonical (subtype : Int8) (data : Bytes) :
    extension subtype data = (Value.ext subtype data).canonical := by
  simp only [extension, Value.canonical, uuidSubtype, Uuid.ofBytes?]
  by_cases hs : subtype = 2
  · by_cases hd : data.length = 16 <;> simp [hs, hd]
  · simp [hs]

theorem extension_uuid (u : Uuid) : extension uuidSubtype u.bytes = .uuid u := by
  simp [extension, Uuid.ofBytes?, u.length_eq]

theorem readValue_float32 (bits : UInt32) :
    readValue (levels + 1) (0xca :: (Bytes.ofNat 4 bits.toNat ++ rest)) =
      .ok (.float32 bits, rest) := by
  have hb : Form.ofByte 0xca = .float32 := rfl
  have hn : bits.toNat < Bytes.limit 4 := bits.toNat_lt
  rw [readValue, hb]
  simp only [readNat_append hn, bind, Except.bind, UInt32.ofNat_toNat]

theorem readValue_float64 (bits : UInt64) :
    readValue (levels + 1) (0xcb :: (Bytes.ofNat 8 bits.toNat ++ rest)) =
      .ok (.float64 bits, rest) := by
  have hb : Form.ofByte 0xcb = .float64 := rfl
  have hn : bits.toNat < Bytes.limit 8 := bits.toNat_lt
  rw [readValue, hb]
  simp only [readNat_append hn, bind, Except.bind, UInt64.ofNat_toNat]

theorem bind_ok {α β ε : Type} {x : Except ε α} {f : α → Except ε β} {b : β}
    (h : (x >>= f) = .ok b) : ∃ a, x = .ok a ∧ f a = .ok b := by
  cases x with
  | error e => cases h
  | ok a => exact ⟨a, rfl, h⟩

/-- A scalar has no part but itself, so that one level is enough. -/
theorem readValue_scalar {v : Value} (hv : v.IsScalar) {e : Bytes} (he : encode v = .ok e) :
    readValue (levels + 1) (e ++ rest) = .ok (v.canonical, rest) := by
  cases v with
  | array | map => cases hv
  | nil =>
    cases he
    exact readValue_constant rfl
  | bool b =>
    cases he
    cases b <;> exact readValue_constant rfl
  | int i =>
    rw [encode_int] at he
    exact readValue_intBytes he
  | float32 bits =>
    cases he
    exact readValue_float32 bits
  | float64 bits =>
    cases he
    exact readValue_float64 bits
  | text s =>
    rw [encode_text] at he
    obtain ⟨head, hhead, h⟩ := bind_ok he
    cases h
    rw [List.append_assoc]
    exact readValue_textHead hhead
  | binary bs =>
    rw [encode_binary] at he
    obtain ⟨head, hhead, h⟩ := bind_ok he
    cases h
    rw [List.append_assoc]
    exact readValue_binaryHead hhead
  | uuid u =>
    rw [encode_uuid] at he
    rw [readValue_extBytes he, extension_uuid]
    rfl
  | ext subtype data =>
    rw [encode_ext] at he
    rw [readValue_extBytes he, extension_eq_canonical]

/-- What reading a written value comes to, whatever follows it and however many levels may be read.
Only the nesting decides whether it succeeds. -/
def ReadsBack (v : Value) : Prop :=
  ∀ e, encode v = .ok e → ∀ levels rest, readValue levels (e ++ rest) =
    if v.nesting < levels then .ok (v.canonical, rest) else .error (.tooDeep maxDepth)

/-- No value is written as no bytes, which would be read as the end of the input. -/
theorem ReadsBack.length_pos {v : Value} {e : Bytes} (h : ReadsBack v) (he : encode v = .ok e) :
    0 < e.length := by
  cases e with
  | cons b bs => exact Nat.succ_pos _
  | nil =>
    have hread := h [] he (v.nesting + 1) []
    rw [if_pos (Nat.lt_succ_self _)] at hread
    cases hread

theorem readsBack_of_isScalar {v : Value} (hv : v.IsScalar) : ReadsBack v := by
  intro e he levels rest
  rw [Value.nesting_of_isScalar hv]
  cases levels with
  | zero => rfl
  | succ levels => rw [readValue_scalar hv he, if_pos (Nat.succ_pos levels)]

theorem encodeItems_cons_ok {v : Value} {vs : List Value} {body : Bytes}
    (h : encodeItems (v :: vs) = .ok body) :
    ∃ first others, encode v = .ok first ∧ encodeItems vs = .ok others ∧
      body = first ++ others := by
  rw [encodeItems] at h
  obtain ⟨first, hfirst, h⟩ := bind_ok h
  obtain ⟨others, hothers, h⟩ := bind_ok h
  cases h
  exact ⟨first, others, hfirst, hothers, rfl⟩

theorem encodeEntries_cons_ok {k v : Value} {es : List (Value × Value)} {body : Bytes}
    (h : encodeEntries ((k, v) :: es) = .ok body) :
    ∃ key value others, encode k = .ok key ∧ encode v = .ok value ∧
      encodeEntries es = .ok others ∧ body = key ++ value ++ others := by
  rw [encodeEntries] at h
  obtain ⟨key, hkey, h⟩ := bind_ok h
  obtain ⟨value, hvalue, h⟩ := bind_ok h
  obtain ⟨others, hothers, h⟩ := bind_ok h
  cases h
  exact ⟨key, value, others, hkey, hvalue, hothers, rfl⟩

theorem length_encodeItems {items : List Value} (h : ∀ v ∈ items, ReadsBack v) {body : Bytes}
    (hbody : encodeItems items = .ok body) : items.length ≤ body.length := by
  induction items generalizing body with
  | nil => exact Nat.zero_le _
  | cons v vs ih =>
    obtain ⟨first, others, hfirst, hothers, rfl⟩ := encodeItems_cons_ok hbody
    have hpos := (h v List.mem_cons_self).length_pos hfirst
    have hle := ih (fun w hw => h w (List.mem_cons_of_mem v hw)) hothers
    simp only [List.length_cons, List.length_append]
    omega

theorem length_encodeEntries {entries : List (Value × Value)}
    (h : ∀ e ∈ entries, ReadsBack e.1 ∧ ReadsBack e.2) {body : Bytes}
    (hbody : encodeEntries entries = .ok body) : 2 * entries.length ≤ body.length := by
  induction entries generalizing body with
  | nil => exact Nat.zero_le _
  | cons e es ih =>
    obtain ⟨k, v⟩ := e
    obtain ⟨hk, hv⟩ := h (k, v) List.mem_cons_self
    obtain ⟨key, value, others, hkey, hvalue, hothers, rfl⟩ := encodeEntries_cons_ok hbody
    have hkeypos := hk.length_pos hkey
    have hvaluepos := hv.length_pos hvalue
    have hle := ih (fun x hx => h x (List.mem_cons_of_mem (k, v) hx)) hothers
    simp only [List.length_cons, List.length_append]
    omega

/-- Items are read one after another up to the first one that lies too deep. -/
theorem readItems_encodeItems {items : List Value} (h : ∀ v ∈ items, ReadsBack v) {body : Bytes}
    (hbody : encodeItems items = .ok body) (read : List Value) :
    readItems (readValue levels) items.length read (body ++ rest) =
      if ∀ v ∈ items, v.nesting < levels
      then .ok (read.reverse ++ items.map Value.canonical, rest)
      else .error (.tooDeep maxDepth) := by
  induction items generalizing body read with
  | nil =>
    cases hbody
    simp [readItems]
  | cons v vs ih =>
    obtain ⟨first, others, hfirst, hothers, rfl⟩ := encodeItems_cons_ok hbody
    have hread := h v List.mem_cons_self first hfirst levels (others ++ rest)
    rw [List.length_cons, readItems, List.append_assoc, hread]
    by_cases hv : v.nesting < levels
    · rw [if_pos hv]
      simp only [bind, Except.bind]
      rw [ih (fun w hw => h w (List.mem_cons_of_mem v hw)) hothers]
      simp [hv]
    · rw [if_neg hv, if_neg fun hall => hv (hall v List.mem_cons_self)]
      rfl

theorem readEntries_encodeEntries {entries : List (Value × Value)}
    (h : ∀ e ∈ entries, ReadsBack e.1 ∧ ReadsBack e.2) {body : Bytes}
    (hbody : encodeEntries entries = .ok body) (read : List (Value × Value)) :
    readEntries (readValue levels) entries.length read (body ++ rest) =
      if ∀ e ∈ entries, e.1.nesting < levels ∧ e.2.nesting < levels
      then .ok (read.reverse ++ entries.map fun e => (e.1.canonical, e.2.canonical), rest)
      else .error (.tooDeep maxDepth) := by
  induction entries generalizing body read with
  | nil =>
    cases hbody
    simp [readEntries]
  | cons e es ih =>
    obtain ⟨k, v⟩ := e
    obtain ⟨hk, hv⟩ := h (k, v) List.mem_cons_self
    obtain ⟨key, value, others, hkey, hvalue, hothers, rfl⟩ := encodeEntries_cons_ok hbody
    rw [List.length_cons, readEntries, List.append_assoc, List.append_assoc, hk key hkey]
    by_cases hkn : k.nesting < levels
    · rw [if_pos hkn]
      simp only [bind, Except.bind]
      rw [hv value hvalue]
      by_cases hvn : v.nesting < levels
      · rw [if_pos hvn]
        simp only
        rw [ih (fun x hx => h x (List.mem_cons_of_mem (k, v) hx)) hothers]
        simp only [List.forall_mem_cons, hkn, hvn, and_self, true_and]
        simp
      · rw [if_neg hvn, if_neg fun hall => hvn (hall (k, v) List.mem_cons_self).2]
    · rw [if_neg hkn, if_neg fun hall => hkn (hall (k, v) List.mem_cons_self).1]
      rfl

theorem readsBack_array {items : List Value} (ih : ∀ v ∈ items, ReadsBack v) :
    ReadsBack (.array items) := by
  intro e he levels rest
  cases levels with
  | zero => rfl
  | succ levels =>
    rw [encode_array] at he
    obtain ⟨head, hhead, he⟩ := bind_ok he
    obtain ⟨body, hbody, he⟩ := bind_ok he
    cases he
    obtain ⟨b, length, field, rfl, hb, hgives⟩ := announces_arrayHead hhead
    have hroom : ensure items.length (body ++ rest) = .ok () := by
      apply ensure_of_le
      have hle := length_encodeItems ih hbody
      rw [List.length_append]
      omega
    rw [List.append_assoc, List.cons_append, readValue, hb]
    simp only [hgives.readLength, hroom, bind, Except.bind, readItems_encodeItems ih hbody,
      Value.nesting, Value.nestingItems_lt, Value.canonical, Value.canonicalItems_eq]
    by_cases hall : ∀ v ∈ items, v.nesting < levels
    · rw [if_pos hall, if_pos hall]
      rfl
    · rw [if_neg hall, if_neg hall]

theorem readsBack_map {entries : List (Value × Value)}
    (ih : ∀ e ∈ entries, ReadsBack e.1 ∧ ReadsBack e.2) : ReadsBack (.map entries) := by
  intro e he levels rest
  cases levels with
  | zero => rfl
  | succ levels =>
    rw [encode_map] at he
    obtain ⟨head, hhead, he⟩ := bind_ok he
    obtain ⟨body, hbody, he⟩ := bind_ok he
    cases he
    obtain ⟨b, length, field, rfl, hb, hgives⟩ := announces_mapHead hhead
    have hroom : ensure (2 * entries.length) (body ++ rest) = .ok () := by
      apply ensure_of_le
      have hle := length_encodeEntries ih hbody
      rw [List.length_append]
      omega
    rw [List.append_assoc, List.cons_append, readValue, hb]
    simp only [hgives.readLength, hroom, bind, Except.bind, readEntries_encodeEntries ih hbody,
      Value.nesting, Value.nestingEntries_lt, Value.canonical, Value.canonicalEntries_eq]
    by_cases hall : ∀ e ∈ entries, e.1.nesting < levels ∧ e.2.nesting < levels
    · rw [if_pos hall, if_pos hall]
      rfl
    · rw [if_neg hall, if_neg hall]

theorem readsBack (v : Value) : ReadsBack v := by
  induction v using Value.induct with
  | scalar v hv => exact readsBack_of_isScalar hv
  | array items ih => exact readsBack_array ih
  | map entries ih => exact readsBack_map ih

theorem decode_written {v : Value} {e : Bytes} (h : encode v = .ok e) (rest : Bytes) :
    decode (e ++ rest) =
      if v.nesting ≤ maxDepth then .ok (v.canonical, e.length)
      else .error (.tooDeep maxDepth) := by
  simp only [decode, read, readsBack v e h, Nat.lt_succ_iff]
  by_cases hv : v.nesting ≤ maxDepth
  · simp [hv, bind, Except.bind]
  · simp [hv, bind, Except.bind]

/-- A value in the innermost one of `n` arrays with one item each. -/
def wrapped : Nat → Value → Value
  | 0, v => v
  | n + 1, v => .array [wrapped n v]

theorem encode_wrapped_nil (n : Nat) :
    encode (wrapped n .nil) = .ok (List.replicate n 0x91 ++ [0xc0]) := by
  induction n with
  | zero => rfl
  | succ n ih =>
    rw [wrapped, encode_array, encodeItems, ih]
    simp [encodeItems, arrayHead, bind, Except.bind, List.replicate_succ]

theorem nesting_wrapped_nil (n : Nat) : (wrapped n .nil).nesting = n := by
  induction n with
  | zero => rfl
  | succ n ih => simp [wrapped, Value.nesting, Value.nestingItems, ih]

/-- A written value is read back in its canonical form if no part of it lies in more than 512
arrays and maps, and otherwise it is refused for its depth; what follows it does not matter. -/
theorem decode_encode_append (v : Value) (e : Bytes) (h : encode v = .ok e) (rest : Bytes) :
    ((∀ n w, Value.At n w v → n ≤ 512) → decode (e ++ rest) = .ok (v.canonical, e.length)) ∧
      ((∃ n w, Value.At n w v ∧ 512 < n) → decode (e ++ rest) = .error (.tooDeep 512)) := by
  constructor
  · intro hat
    have hle : v.nesting ≤ maxDepth := Value.nesting_le_iff.2 hat
    rw [decode_written h, if_pos hle]
  · intro hdeep
    have hlt : maxDepth < v.nesting := Value.lt_nesting_iff.2 hdeep
    rw [decode_written h, if_neg (Nat.not_le.2 hlt)]
    rfl

/-- Of equal keys both entries stay, the bits of a not-a-number stay, and sixteen bytes under the
subtype 2 come back as a UUID; the 513th array is the first one too many. -/
theorem decode_encode_append_mixed_and_deep :
    (∃ e, encode (.map [(.int 300, .ext 2 (.replicate 16 7)), (.int 300, .float32 0x7fc00001)]) =
        .ok e ∧
      decode (e ++ [0xc1]) =
        .ok (.map [(.int 300, .uuid ⟨.replicate 16 7, rfl⟩), (.int 300, .float32 0x7fc00001)],
          30)) ∧
    (∃ e, encode (wrapped 513 .nil) = .ok e ∧ decode (e ++ [0xc1]) = .error (.tooDeep 512)) := by
  constructor
  · have hmixed : encode
        (.map [(.int 300, .ext 2 (.replicate 16 7)), (.int 300, .float32 0x7fc00001)]) =
        .ok ([0x82, 0xcd, 1, 44, 0xd8, 2] ++ List.replicate 16 7 ++
          [0xcd, 1, 44, 0xca, 0x7f, 0xc0, 0, 1]) := by decide +kernel
    exact ⟨_, hmixed, (decode_encode_append _ _ hmixed [0xc1]).1
      (Value.nesting_le_iff.1 (by decide))⟩
  · refine ⟨_, encode_wrapped_nil 513,
      (decode_encode_append _ _ (encode_wrapped_nil 513) [0xc1]).2 (Value.lt_nesting_iff.1 ?_)⟩
    rw [nesting_wrapped_nil]
    decide

end TupleClient.Wire
