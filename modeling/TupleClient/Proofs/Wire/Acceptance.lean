import TupleClient.Proofs.Wire.Grammar
import TupleClient.Proofs.Wire.RoundTrip

/-!
The reader accepts the grammar: every spelling of a value that is not nested too deep is read,
whatever follows it, and what is read was spelled.
-/
namespace TupleClient.Wire

variable {levels : Nat} {bs rest : Bytes}

theorem readNat_eq_ok {width n : Nat} (h : readNat width bs = .ok (n, rest)) :
    n < Bytes.limit width ∧ bs = Bytes.ofNat width n ++ rest := by
  obtain ⟨⟨field, more⟩, htake, hfield⟩ := bind_ok h
  obtain ⟨hbs, rfl⟩ := take_eq_ok htake
  cases hfield
  rw [Bytes.ofNat_toNat]
  exact ⟨Bytes.toNat_lt_limit field, hbs⟩

theorem readLength_eq_ok {length : Length} {n : Nat} (h : readLength length bs = .ok (n, rest)) :
    ∃ field, bs = field ++ rest ∧ length.Gives n field := by
  cases length with
  | fixed n =>
    cases h
    exact ⟨[], rfl, .fixed n⟩
  | field width =>
    obtain ⟨hn, hbs⟩ := readNat_eq_ok h
    exact ⟨_, hbs, .field width hn⟩

theorem readSized_eq_ok {length : Length} {data : Bytes}
    (h : readSized length bs = .ok (data, rest)) :
    ∃ field, bs = field ++ (data ++ rest) ∧ length.Gives data.length field := by
  obtain ⟨⟨n, more⟩, hlength, hdata⟩ := bind_ok h
  obtain ⟨field, rfl, hgives⟩ := readLength_eq_ok hlength
  obtain ⟨rfl, rfl⟩ := take_eq_ok hdata
  exact ⟨field, rfl, hgives⟩

def ReadsSpellings (levels : Nat) (v : Value) : Prop :=
  ∀ bs, Spelling v bs → ∀ rest, readValue levels (bs ++ rest) = .ok (v, rest)

theorem readItems_spelling {items : List Value} (h : ∀ v ∈ items, ReadsSpellings levels v)
    {body : Bytes} (hbody : ItemsSpelling items body) (read : List Value) :
    readItems (readValue levels) items.length read (body ++ rest) =
      .ok (read.reverse ++ items, rest) := by
  induction items generalizing body read with
  | nil =>
    cases hbody
    simp [readItems]
  | cons v vs ih =>
    cases hbody with
    | cons hv hvs =>
      rw [List.length_cons, readItems, List.append_assoc, h v List.mem_cons_self _ hv]
      simp only [bind, Except.bind]
      rw [ih (fun w hw => h w (List.mem_cons_of_mem v hw)) hvs]
      simp

theorem readEntries_spelling {entries : List (Value × Value)}
    (h : ∀ e ∈ entries, ReadsSpellings levels e.1 ∧ ReadsSpellings levels e.2)
    {body : Bytes} (hbody : EntriesSpelling entries body) (read : List (Value × Value)) :
    readEntries (readValue levels) entries.length read (body ++ rest) =
      .ok (read.reverse ++ entries, rest) := by
  induction entries generalizing body read with
  | nil =>
    cases hbody
    simp [readEntries]
  | cons e es ih =>
    cases hbody with
    | cons hk hv hes =>
      obtain ⟨hkey, hvalue⟩ := h _ List.mem_cons_self
      rw [List.length_cons, readEntries, List.append_assoc, List.append_assoc, hkey _ hk]
      simp only [bind, Except.bind]
      rw [hvalue _ hv]
      simp only
      rw [ih (fun x hx => h x (List.mem_cons_of_mem _ hx)) hes]
      simp

theorem readValue_of_isScalar {v : Value} (hscalar : v.IsScalar) {bs : Bytes} (h : Spelling v bs) :
    readValue (levels + 1) (bs ++ rest) = .ok (v, rest) := by
  cases h with
  | array | map => cases hscalar
  | constant hb => exact readValue_constant hb.ofByte_eq
  | @unsigned b width n hb hn =>
    rw [List.cons_append, readValue, hb.ofByte_eq]
    simp only [take_of_length (Bytes.length_ofNat width n), bind, Except.bind,
      Bytes.toNat_ofNat hn]
  | signed hb hlo hhi => exact readValue_signed hb.ofByte_eq hlo hhi
  | float32 hb bits =>
    cases hb
    exact readValue_float32 bits
  | float64 hb bits =>
    cases hb
    exact readValue_float64 bits
  | text hb hlength =>
    rw [List.cons_append, List.append_assoc, readValue, hb.ofByte_eq]
    simp only [readText, hlength.readSized, bind, Except.bind, Bytes.toText?_ofText]
  | binary hb hlength =>
    rw [List.cons_append, List.append_assoc, readValue, hb.ofByte_eq]
    simp only [hlength.readSized, bind, Except.bind]
  | uuid hb hlength u =>
    rw [List.cons_append, List.append_assoc, List.cons_append, readValue, hb.ofByte_eq]
    simp only [readExt, hlength.readLength, readNat_one, take_of_length u.length_eq, bind,
      Except.bind]
    exact congrArg (fun w => Except.ok (w, rest)) (extension_uuid u)
  | @ext b length field data subtype hb hlength hother =>
    rw [List.cons_append, List.append_assoc, List.cons_append, readValue, hb.ofByte_eq]
    simp only [readExt, hlength.readLength, readNat_one, take_append, bind, Except.bind,
      toInt8_toUInt8, extension_eq_canonical, Value.canonical, dif_neg hother]

theorem ensure_items {items : List Value} {body : Bytes} (h : ItemsSpelling items body)
    (rest : Bytes) : ensure items.length (body ++ rest) = .ok () := by
  apply ensure_of_le
  have hle := h.length_le
  rw [List.length_append]
  omega

theorem ensure_entries {entries : List (Value × Value)} {body : Bytes}
    (h : EntriesSpelling entries body) (rest : Bytes) :
    ensure (2 * entries.length) (body ++ rest) = .ok () := by
  apply ensure_of_le
  have hle := h.length_le
  rw [List.length_append]
  omega

theorem readsSpellings_array {items : List Value} (h : ∀ v ∈ items, ReadsSpellings levels v) :
    ReadsSpellings (levels + 1) (.array items) := by
  intro bs hbs rest
  cases hbs with
  | constant hb => cases hb
  | array hb hlength hitems =>
    rw [List.cons_append, List.append_assoc, readValue, hb.ofByte_eq]
    simp only [hlength.readLength, ensure_items hitems, readItems_spelling h hitems, bind,
      Except.bind, List.reverse_nil, List.nil_append]

theorem readsSpellings_map {entries : List (Value × Value)}
    (h : ∀ e ∈ entries, ReadsSpellings levels e.1 ∧ ReadsSpellings levels e.2) :
    ReadsSpellings (levels + 1) (.map entries) := by
  intro bs hbs rest
  cases hbs with
  | constant hb => cases hb
  | map hb hlength hentries =>
    rw [List.cons_append, List.append_assoc, readValue, hb.ofByte_eq]
    simp only [hlength.readLength, ensure_entries hentries, readEntries_spelling h hentries, bind,
      Except.bind, List.reverse_nil, List.nil_append]

theorem readsSpellings_of_nesting_lt {v : Value} (h : v.nesting < levels) :
    ReadsSpellings levels v := by
  induction v using Value.induct generalizing levels with
  | scalar v hscalar =>
    cases levels with
    | zero => cases h
    | succ levels => exact fun bs hbs rest => readValue_of_isScalar hscalar hbs
  | array items ih =>
    cases levels with
    | zero => cases h
    | succ levels =>
      rw [Value.nesting, Value.nestingItems_lt] at h
      exact readsSpellings_array fun v hv => ih v hv (h v hv)
  | map entries ih =>
    cases levels with
    | zero => cases h
    | succ levels =>
      rw [Value.nesting, Value.nestingEntries_lt] at h
      exact readsSpellings_map fun e he => ⟨(ih e he).1 (h e he).1, (ih e he).2 (h e he).2⟩

/-- A value was read off the front, in one of its forms and not nested too deep. -/
def Takes (levels : Nat) (v : Value) (bs rest : Bytes) : Prop :=
  ∃ used, bs = used ++ rest ∧ Spelling v used ∧ v.nesting < levels

theorem takes_of_isScalar {v : Value} {used : Bytes} (h : Spelling v used) (hv : v.IsScalar)
    (hbs : bs = used ++ rest) : Takes (levels + 1) v bs rest := by
  refine ⟨used, hbs, h, ?_⟩
  rw [Value.nesting_of_isScalar hv]
  exact Nat.succ_pos levels

theorem takes_of_readText {b : UInt8} {length : Length} {v : Value} (hb : Begins b (.text length))
    (h : readText length bs = .ok (v, rest)) : Takes (levels + 1) v (b :: bs) rest := by
  obtain ⟨⟨raw, more⟩, hsized, htext⟩ := bind_ok h
  obtain ⟨field, rfl, hgives⟩ := readSized_eq_ok hsized
  simp only at htext
  split at htext
  · rename_i s hs
    cases htext
    rw [← Bytes.ofText_of_toText? hs] at hgives ⊢
    exact takes_of_isScalar (.text hb hgives) trivial (by simp)
  · cases htext

theorem spelling_extension {b : UInt8} {length : Length} {field data : Bytes} (subtype : Int8)
    (hb : Begins b (.ext length)) (h : length.Gives data.length field) :
    Spelling (extension subtype data) (b :: (field ++ subtype.toUInt8 :: data)) ∧
      (extension subtype data).IsScalar := by
  rw [extension_eq_canonical, Value.canonical]
  split
  · rename_i huuid
    obtain ⟨rfl, hlength⟩ := huuid
    rw [hlength] at h
    exact ⟨.uuid hb h ⟨data, hlength⟩, trivial⟩
  · rename_i hother
    exact ⟨.ext hb h hother, trivial⟩

theorem takes_of_readExt {b : UInt8} {length : Length} {v : Value} (hb : Begins b (.ext length))
    (h : readExt length bs = .ok (v, rest)) : Takes (levels + 1) v (b :: bs) rest := by
  obtain ⟨⟨n, behind⟩, hlength, hpayload⟩ := bind_ok h
  obtain ⟨⟨subtype, more⟩, hsubtype, hbody⟩ := bind_ok hpayload
  obtain ⟨⟨data, last⟩, hdata, hvalue⟩ := bind_ok hbody
  obtain ⟨field, rfl, hgives⟩ := readLength_eq_ok hlength
  obtain ⟨hlt, rfl⟩ := readNat_eq_ok hsubtype
  obtain ⟨rfl, rfl⟩ := take_eq_ok hdata
  cases hvalue
  obtain ⟨hspelling, hscalar⟩ := spelling_extension (UInt8.ofNat subtype).toInt8 hb hgives
  refine takes_of_isScalar hspelling hscalar ?_
  rw [ofNat_one]
  simp

theorem readItems_eq_ok
    (hone : ∀ {v bs rest}, readValue levels bs = .ok (v, rest) → Takes levels v bs rest)
    {n : Nat} {read items : List Value}
    (h : readItems (readValue levels) n read bs = .ok (items, rest)) :
    ∃ new body, items = read.reverse ++ new ∧ new.length = n ∧ bs = body ++ rest ∧
      ItemsSpelling new body ∧ ∀ v ∈ new, v.nesting < levels := by
  induction n generalizing read bs with
  | zero =>
    cases h
    exact ⟨[], [], by simp, rfl, rfl, .nil, by simp⟩
  | succ n ih =>
    obtain ⟨⟨v, more⟩, hv, hothers⟩ := bind_ok h
    obtain ⟨first, rfl, hspelling, hlt⟩ := hone hv
    obtain ⟨new, body, rfl, hlength, rfl, hitems, hnew⟩ := ih hothers
    refine ⟨v :: new, first ++ body, by simp, by simp [hlength], by simp,
      .cons hspelling hitems, ?_⟩
    exact List.forall_mem_cons.2 ⟨hlt, hnew⟩

theorem readEntries_eq_ok
    (hone : ∀ {v bs rest}, readValue levels bs = .ok (v, rest) → Takes levels v bs rest)
    {n : Nat} {read entries : List (Value × Value)}
    (h : readEntries (readValue levels) n read bs = .ok (entries, rest)) :
    ∃ new body, entries = read.reverse ++ new ∧ new.length = n ∧ bs = body ++ rest ∧
      EntriesSpelling new body ∧ ∀ e ∈ new, e.1.nesting < levels ∧ e.2.nesting < levels := by
  induction n generalizing read bs with
  | zero =>
    cases h
    exact ⟨[], [], by simp, rfl, rfl, .nil, by simp⟩
  | succ n ih =>
    obtain ⟨⟨k, behind⟩, hk, hentry⟩ := bind_ok h
    obtain ⟨⟨v, more⟩, hv, hothers⟩ := bind_ok hentry
    obtain ⟨key, rfl, hkey, hklt⟩ := hone hk
    obtain ⟨value, rfl, hvalue, hvlt⟩ := hone hv
    obtain ⟨new, body, rfl, hlength, rfl, hentries, hnew⟩ := ih hothers
    refine ⟨(k, v) :: new, key ++ (value ++ body), by simp, by simp [hlength], by simp,
      .cons hkey hvalue hentries, ?_⟩
    exact List.forall_mem_cons.2 ⟨⟨hklt, hvlt⟩, hnew⟩

/-- An array lies one level above its items. -/
theorem takes_of_readItems
    (hone : ∀ {v bs rest}, readValue levels bs = .ok (v, rest) → Takes levels v bs rest)
    {b : UInt8} {length : Length} {n : Nat} {more : Bytes} {items : List Value}
    (hb : Begins b (.array length)) (hlength : readLength length bs = .ok (n, more))
    (h : readItems (readValue levels) n [] more = .ok (items, rest)) :
    Takes (levels + 1) (.array items) (b :: bs) rest := by
  obtain ⟨field, rfl, hgives⟩ := readLength_eq_ok hlength
  obtain ⟨new, body, rfl, rfl, rfl, hitems, hnew⟩ := readItems_eq_ok hone h
  refine ⟨b :: (field ++ body), by simp, .array hb hgives hitems, ?_⟩
  rw [Value.nesting]
  exact Value.nestingItems_lt.2 hnew

theorem takes_of_readEntries
    (hone : ∀ {v bs rest}, readValue levels bs = .ok (v, rest) → Takes levels v bs rest)
    {b : UInt8} {length : Length} {n : Nat} {more : Bytes} {entries : List (Value × Value)}
    (hb : Begins b (.map length)) (hlength : readLength length bs = .ok (n, more))
    (h : readEntries (readValue levels) n [] more = .ok (entries, rest)) :
    Takes (levels + 1) (.map entries) (b :: bs) rest := by
  obtain ⟨field, rfl, hgives⟩ := readLength_eq_ok hlength
  obtain ⟨new, body, rfl, rfl, rfl, hentries, hnew⟩ := readEntries_eq_ok hone h
  refine ⟨b :: (field ++ body), by simp, .map hb hgives hentries, ?_⟩
  rw [Value.nesting]
  exact Value.nestingEntries_lt.2 hnew

theorem takes_of_readValue {v : Value} (h : readValue levels bs = .ok (v, rest)) :
    Takes levels v bs rest := by
  induction levels generalizing v bs rest with
  | zero => cases h
  | succ levels ih =>
    cases bs with
    | nil => cases h
    | cons b bs =>
      by_cases hreserved : b = 0xc1
      · subst hreserved
        cases h
      have hb := begins_ofByte hreserved
      rw [readValue] at h
      generalize Form.ofByte b = form at hb h
      cases form with
      | reserved => cases hb
      | constant w =>
        cases h
        exact takes_of_isScalar (.constant hb) (by cases hb <;> trivial) rfl
      | unsigned width =>
        obtain ⟨⟨field, more⟩, hfield, hv⟩ := bind_ok h
        obtain ⟨rfl, rfl⟩ := take_eq_ok hfield
        cases hv
        have hspelling := Spelling.unsigned hb (Bytes.toNat_lt_limit field)
        rw [Bytes.ofNat_toNat] at hspelling
        exact takes_of_isScalar hspelling trivial rfl
      | signed width =>
        obtain ⟨⟨field, more⟩, hfield, hv⟩ := bind_ok h
        obtain ⟨rfl, rfl⟩ := take_eq_ok hfield
        cases hv
        obtain ⟨hlo, hhi⟩ := Bytes.toInt_bounds field
        have hspelling := Spelling.signed hb hlo hhi
        rw [Bytes.ofInt_toInt] at hspelling
        exact takes_of_isScalar hspelling trivial rfl
      | float32 =>
        obtain ⟨⟨n, more⟩, hn, hv⟩ := bind_ok h
        obtain ⟨hlt, rfl⟩ := readNat_eq_ok hn
        cases hv
        have hbits : (UInt32.ofNat n).toNat = n := Nat.mod_eq_of_lt hlt
        have hspelling := Spelling.float32 hb (UInt32.ofNat n)
        rw [hbits] at hspelling
        exact takes_of_isScalar hspelling trivial rfl
      | float64 =>
        obtain ⟨⟨n, more⟩, hn, hv⟩ := bind_ok h
        obtain ⟨hlt, rfl⟩ := readNat_eq_ok hn
        cases hv
        have hbits : (UInt64.ofNat n).toNat = n := Nat.mod_eq_of_lt hlt
        have hspelling := Spelling.float64 hb (UInt64.ofNat n)
        rw [hbits] at hspelling
        exact takes_of_isScalar hspelling trivial rfl
      | text length =>
        exact takes_of_readText hb h
      | binary length =>
        obtain ⟨⟨data, more⟩, hsized, hv⟩ := bind_ok h
        obtain ⟨field, rfl, hgives⟩ := readSized_eq_ok hsized
        cases hv
        exact takes_of_isScalar (.binary hb hgives) trivial (by simp)
      | array length =>
        obtain ⟨⟨n, more⟩, hlength, hbody⟩ := bind_ok h
        obtain ⟨_, -, hall⟩ := bind_ok hbody
        obtain ⟨⟨items, last⟩, hread, hv⟩ := bind_ok hall
        cases hv
        exact takes_of_readItems ih hb hlength hread
      | map length =>
        obtain ⟨⟨n, more⟩, hlength, hbody⟩ := bind_ok h
        obtain ⟨_, -, hall⟩ := bind_ok hbody
        obtain ⟨⟨entries, last⟩, hread, hv⟩ := bind_ok hall
        cases hv
        exact takes_of_readEntries ih hb hlength hread
      | ext length =>
        exact takes_of_readExt hb h

theorem read_eq_ok_iff {v : Value} :
    read bs = .ok (v, rest) ↔
      ∃ used, bs = used ++ rest ∧ Spelling v used ∧ v.nesting ≤ maxDepth := by
  constructor
  · intro h
    obtain ⟨used, hbs, hspelling, hlt⟩ := takes_of_readValue h
    exact ⟨used, hbs, hspelling, Nat.le_of_lt_succ hlt⟩
  · rintro ⟨used, rfl, hspelling, hle⟩
    exact readsSpellings_of_nesting_lt (Nat.lt_succ_of_le hle) used hspelling rest

/-- What is read is exactly what the table of first bytes allows, in any of its forms, with at most
512 arrays and maps around any part. The lengths that are asked for before the parts of an array or
a map are read are there in everything that is allowed. -/
theorem decode_eq_ok_iff_spelling :
    (∀ (bs : Bytes) (v : Value) (n : Nat), decode bs = .ok (v, n) ↔
      n ≤ bs.length ∧ Spelling v (bs.take n) ∧ ∀ depth part, Value.At depth part v → depth ≤ 512) ∧
      (∀ items body rest, ItemsSpelling items body →
        ensure items.length (body ++ rest) = .ok ()) ∧
      ∀ entries body rest, EntriesSpelling entries body →
        ensure (2 * entries.length) (body ++ rest) = .ok () := by
  refine ⟨fun bs v n => ?_, fun _ _ rest h => ensure_items h rest,
    fun _ _ rest h => ensure_entries h rest⟩
  rw [← Value.nesting_le_iff]
  constructor
  · intro h
    obtain ⟨⟨w, rest⟩, hread, hn⟩ := bind_ok h
    obtain ⟨used, rfl, hspelling, hle⟩ := read_eq_ok_iff.1 hread
    cases hn
    rw [List.length_append, Nat.add_sub_cancel, List.take_left]
    exact ⟨Nat.le_add_right .., hspelling, hle⟩
  · rintro ⟨hn, hspelling, hle⟩
    have hread : read bs = .ok (v, bs.drop n) :=
      read_eq_ok_iff.2 ⟨bs.take n, (List.take_append_drop n bs).symm, hspelling, hle⟩
    rw [decode, hread]
    simp only [bind, Except.bind, List.length_drop, Nat.sub_sub_self hn]

end TupleClient.Wire
