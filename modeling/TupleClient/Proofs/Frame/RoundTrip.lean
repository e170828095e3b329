import Mathlib.Data.List.Perm.Subperm
import TupleClient.Proofs.Frame.Readers
import TupleClient.Proofs.Frame.Sync

/-!
A message that can be written is read back by either reader, whatever follows it: its length, and
two maps with their keys in ascending order.
-/
namespace TupleClient

namespace Fields

def canonical (f : Fields) : Fields :=
  ⟨f.entries.map fun x => (x.1, x.2.canonical), f.sorted.map _ fun _ _ => id⟩

/-- A key on the wire is itself up to 127, and stands behind a marker above that. -/
def keyBytes (key : UInt8) : Bytes := if key < 0x80 then [key] else [0xcc, key]

def countBytes (n : Nat) : Bytes :=
  if n < 16 then [UInt8.ofNat (0x80 + n)] else 0xde :: Bytes.ofNat 2 n

inductive EntriesWritten : List (UInt8 × Value) → Bytes → Prop where
  | nil : EntriesWritten [] []
  | cons {key : UInt8} {v : Value} {rest : List (UInt8 × Value)} {value others : Bytes}
      (hv : Wire.encode v = .ok value) (hrest : EntriesWritten rest others) :
      EntriesWritten ((key, v) :: rest) (keyBytes key ++ value ++ others)

/-- Fields on the wire. The entries stand by ascending keys, as they do in the fields. -/
def Written (f : Fields) (bytes : Bytes) : Prop :=
  ∃ entries, EntriesWritten f.entries entries ∧ bytes = countBytes f.entries.length ++ entries

theorem length_entries_le (f : Fields) : f.entries.length ≤ 256 := by
  have hsorted : (f.entries.map fun x => x.1.toNat).Pairwise (· < ·) :=
    f.sorted.map _ fun _ _ => UInt8.lt_iff_toNat_lt.1
  have hnodup : (f.entries.map fun x => x.1.toNat).Nodup := hsorted.imp Nat.ne_of_lt
  have hsub : (f.entries.map fun x => x.1.toNat) ⊆ List.range 256 := by
    intro n hn
    obtain ⟨x, -, rfl⟩ := List.mem_map.1 hn
    exact List.mem_range.2 x.1.toNat_lt
  have hle := (List.Nodup.subperm hnodup hsub).length_le
  rwa [List.length_map, List.length_range] at hle

theorem mapHead_length (f : Fields) :
    Wire.mapHead f.entries.length = .ok (countBytes f.entries.length) := by
  have hle := f.length_entries_le
  unfold Wire.mapHead countBytes
  split
  · rfl
  · rw [if_pos (by omega)]

theorem encode_key (key : UInt8) : Wire.encode (.ofNat key.toNat) = .ok (keyBytes key) := by
  have hlt := key.toNat_lt
  have hrange : ¬((key.toNat : Int) < minSigned64 ∨ maxUnsigned64 < (key.toNat : Int)) := by
    simp only [minSigned64, maxUnsigned64]
    omega
  have hbyte : Bytes.ofInt 1 (key.toNat : Int) = [key] := by
    rw [Bytes.ofInt_of_nonneg (Int.natCast_nonneg _) (by rw [Wire.limit_one]; omega),
      Int.toNat_natCast, Wire.ofNat_one, UInt8.ofNat_toNat]
  rw [Value.ofNat, Wire.encode_int, Wire.intBytes, if_neg hrange,
    if_pos (Int.natCast_nonneg _), hbyte, keyBytes]
  by_cases hsmall : key < 0x80
  · have hnat : key.toNat < 128 := UInt8.lt_iff_toNat_lt.1 hsmall
    rw [if_pos hsmall, if_pos (by omega)]
  · have hnat : ¬key.toNat < 128 := fun h => hsmall (UInt8.lt_iff_toNat_lt.2 h)
    rw [if_neg hsmall, if_neg (by omega), if_pos (by omega)]

theorem encodeEntries_eq_ok_iff {entries : List (UInt8 × Value)} {bytes : Bytes} :
    Wire.encodeEntries (entries.map fun x => (.ofNat x.1.toNat, x.2)) = .ok bytes ↔
      EntriesWritten entries bytes := by
  induction entries generalizing bytes with
  | nil =>
    constructor
    · intro h
      cases h
      exact .nil
    · intro h
      cases h
      rfl
  | cons x rest ih =>
    obtain ⟨key, v⟩ := x
    rw [List.map_cons]
    constructor
    · intro h
      obtain ⟨keyed, value, others, hkey, hvalue, hothers, rfl⟩ := Wire.encodeEntries_cons_ok h
      rw [encode_key] at hkey
      cases hkey
      exact .cons hvalue (ih.1 hothers)
    · intro h
      cases h with
      | cons hv hrest =>
        simp only [Wire.encodeEntries, encode_key, hv, ih.2 hrest, bind, Except.bind]

theorem encode_toValue_eq_ok_iff {f : Fields} {bytes : Bytes} :
    Wire.encode f.toValue = .ok bytes ↔ f.Written bytes := by
  rw [toValue, Wire.encode_map, List.length_map, mapHead_length]
  constructor
  · intro h
    obtain ⟨head, hhead, h⟩ := Wire.bind_ok h
    obtain ⟨entries, hentries, h⟩ := Wire.bind_ok h
    cases hhead
    cases h
    exact ⟨entries, encodeEntries_eq_ok_iff.1 hentries, rfl⟩
  · rintro ⟨entries, hentries, rfl⟩
    simp only [encodeEntries_eq_ok_iff.2 hentries, bind, Except.bind]

theorem exists_entriesWritten_iff {entries : List (UInt8 × Value)} :
    (∃ bytes, EntriesWritten entries bytes) ↔
      ∀ x ∈ entries, ∃ value, Wire.encode x.2 = .ok value := by
  induction entries with
  | nil => exact ⟨fun _ => nofun, fun _ => ⟨[], .nil⟩⟩
  | cons x rest ih =>
    rw [List.forall_mem_cons, ← ih]
    constructor
    · rintro ⟨_, h⟩
      cases h with
      | cons hv hrest => exact ⟨⟨_, hv⟩, ⟨_, hrest⟩⟩
    · rintro ⟨⟨_, hv⟩, ⟨_, hrest⟩⟩
      exact ⟨_, .cons hv hrest⟩

theorem exists_written_iff {f : Fields} :
    (∃ bytes, f.Written bytes) ↔ ∀ x ∈ f.entries, ∃ value, Wire.encode x.2 = .ok value := by
  rw [← exists_entriesWritten_iff]
  constructor
  · rintro ⟨_, entries, hentries, -⟩
    exact ⟨entries, hentries⟩
  · rintro ⟨entries, hentries⟩
    exact ⟨_, entries, hentries, rfl⟩

theorem Written.unique {f : Fields} {bytes bytes' : Bytes} (h : f.Written bytes)
    (h' : f.Written bytes') : bytes = bytes' := by
  have hbytes := encode_toValue_eq_ok_iff.2 h
  rw [encode_toValue_eq_ok_iff.2 h'] at hbytes
  exact (Except.ok.inj hbytes).symm

theorem insertInto_of_lt {key : UInt8} {entries : List (UInt8 × Value)}
    (h : ∀ x ∈ entries, x.1 < key) (v : Value) :
    insertInto key v entries = entries ++ [(key, v)] := by
  induction entries with
  | nil => rfl
  | cons x rest ih =>
    obtain ⟨k, w⟩ := x
    obtain ⟨hk, hrest⟩ := List.forall_mem_cons.1 h
    rw [insertInto, if_neg (UInt8.lt_asymm hk), if_neg (UInt8.ne_of_lt hk).symm, ih hrest,
      List.cons_append]

theorem byte?_key (key : UInt8) : (Value.ofNat key.toNat).byte? = some key := by
  have hlt := key.toNat_lt
  have hnat : (Value.ofNat key.toNat).nat64? = some key.toNat := by
    rw [Value.ofNat, Value.nat64?,
      if_pos ⟨Int.natCast_nonneg _, by simp only [maxUnsigned64]; omega⟩,
      Int.toNat_natCast]
  simp only [Value.byte?, hnat]
  rw [if_pos hlt, UInt8.ofNat_toNat]

theorem fieldsOfEntries_append {f g : Fields} {rest : List (UInt8 × Value)}
    (h : g.entries ++ rest = f.entries) :
    Frame.fieldsOfEntries (rest.map fun x => (.ofNat x.1.toNat, x.2)) g = .ok f := by
  induction rest generalizing g with
  | nil =>
    rw [List.append_nil] at h
    cases g
    cases f
    cases h
    rfl
  | cons x rest ih =>
    obtain ⟨key, v⟩ := x
    have hsorted := f.sorted
    rw [← h] at hsorted
    have hlt : ∀ y ∈ g.entries, y.1 < key :=
      fun y hy => (List.pairwise_append.1 hsorted).2.2 y hy (key, v) List.mem_cons_self
    rw [List.map_cons, Frame.fieldsOfEntries, byte?_key]
    apply ih
    show insertInto key v g.entries ++ rest = f.entries
    rw [insertInto_of_lt hlt, List.append_assoc]
    exact h

theorem fieldsOfValue_toValue (f : Fields) : Frame.fieldsOfValue f.toValue = .ok f :=
  fieldsOfEntries_append rfl

theorem canonical_toValue (f : Fields) : f.toValue.canonical = f.canonical.toValue := by
  rw [toValue, Value.canonical, Value.canonicalEntries_eq, toValue, canonical, List.map_map,
    List.map_map]
  congr 1

theorem nesting_toValue_lt {f : Fields} {levels : Nat} (hlevels : 0 < levels) :
    f.toValue.nesting < levels + 1 ↔ ∀ x ∈ f.entries, x.2.nesting < levels := by
  rw [toValue, Value.nesting, Value.nestingEntries_lt, List.forall_mem_map]
  have hkey : ∀ key : UInt8, (Value.ofNat key.toNat).nesting < levels := by
    intro key
    have hscalar : (Value.ofNat key.toNat).IsScalar := trivial
    rw [Value.nesting_of_isScalar hscalar]
    exact hlevels
  exact forall₂_congr fun x _ => and_iff_right (hkey x.1)

/-- Fields are read back from the front of whatever they were written in front of. -/
theorem read_written {f : Fields} {bytes : Bytes} (h : f.Written bytes)
    (hdeep : ∀ x ∈ f.entries, x.2.nesting < Wire.maxDepth) (rest : Bytes) :
    Wire.read (bytes ++ rest) = .ok (f.canonical.toValue, rest) := by
  have hread := Wire.readsBack f.toValue bytes (encode_toValue_eq_ok_iff.2 h)
    (Wire.maxDepth + 1) rest
  rw [if_pos ((nesting_toValue_lt (by decide)).2 hdeep), canonical_toValue] at hread
  exact hread

end Fields

def Message.canonical (m : Message) : Message := ⟨m.header.canonical, m.body.canonical⟩

def Message.values (m : Message) : List Value :=
  (m.header.entries ++ m.body.entries).map Prod.snd

namespace Frame

theorem encodePayload_eq (m : Message) :
    encodePayload m = (do
      let header ← Wire.encode m.header.toValue
      let body ← Wire.encode m.body.toValue
      .ok (header ++ body).toArray) := by
  rw [encodePayload, Wire.appends m.header.toValue #[]]
  cases Wire.encode m.header.toValue with
  | error e => rfl
  | ok header =>
    simp only [Wire.behind, bind, Except.bind]
    rw [Wire.appends m.body.toValue]
    cases Wire.encode m.body.toValue with
    | error e => rfl
    | ok body => simp [Wire.behind]

theorem encode_eq_ok_iff {m : Message} {e : Bytes} :
    encode m = .ok e ↔ ∃ header body, m.header.Written header ∧ m.body.Written body ∧
      (header ++ body).length ≤ maxUnsigned32 ∧
      e = 0xce :: Bytes.ofNat 4 (header ++ body).length ++ (header ++ body) := by
  rw [encode, encodePayload_eq]
  constructor
  · intro h
    obtain ⟨payload, hpayload, h⟩ := Wire.bind_ok h
    obtain ⟨header, hheader, hpayload⟩ := Wire.bind_ok hpayload
    obtain ⟨body, hbody, hpayload⟩ := Wire.bind_ok hpayload
    obtain ⟨head, hhead, h⟩ := Wire.bind_ok h
    cases hpayload
    cases h
    rw [List.size_toArray, Wire.longHead] at hhead
    split at hhead
    · rename_i hle
      cases hhead
      exact ⟨header, body, Fields.encode_toValue_eq_ok_iff.1 hheader,
        Fields.encode_toValue_eq_ok_iff.1 hbody, hle, rfl⟩
    · cases hhead
  · rintro ⟨header, body, hheader, hbody, hle, rfl⟩
    have hhead : Wire.longHead .frame 0xce (header ++ body).length =
        .ok (0xce :: Bytes.ofNat 4 (header ++ body).length) := by
      rw [Wire.longHead, if_pos hle]
    simp only [Fields.encode_toValue_eq_ok_iff.2 hheader, Fields.encode_toValue_eq_ok_iff.2 hbody,
      bind, Except.bind, List.size_toArray, hhead]

theorem decodePayload_written {m : Message} {header body : Bytes}
    (hheader : m.header.Written header)
    (hbody : m.body.Written body) (hdeep : ∀ v ∈ m.values, v.nesting < Wire.maxDepth) :
    decodePayload (header ++ body) = .ok m.canonical := by
  rw [Message.values, List.forall_mem_map, List.forall_mem_append] at hdeep
  have hfirst := Fields.read_written hheader hdeep.1 body
  have hsecond := Fields.read_written hbody hdeep.2 []
  rw [List.append_nil] at hsecond
  have hrest : body.isEmpty = false := by
    obtain ⟨entries, -, rfl⟩ := hbody
    unfold Fields.countBytes
    split <;> rfl
  simp only [decodePayload, hfirst, Fields.fieldsOfValue_toValue, hrest, hsecond, bind, Except.bind,
    Bool.false_eq_true, if_false, List.isEmpty_nil, if_true]
  rfl

def framed (payload : Bytes) : Bytes := 0xce :: Bytes.ofNat 4 payload.length ++ payload

theorem receive_of_framed {payload : Bytes} (h32 : payload.length ≤ maxUnsigned32) {limit : Nat}
    (hlimit : payload.length ≤ limit) (rest : Bytes) :
    receive limit (framed payload ++ rest) = .ofPayload payload rest := by
  have hform : LengthForm payload.length (0xce :: Bytes.ofNat 4 payload.length) :=
    .four (Nat.lt_succ_of_le h32)
  exact receive_framed (f := ⟨_, payload, hform⟩) hlimit rest

theorem decode_of_framed {payload : Bytes} (h32 : payload.length ≤ maxUnsigned32) {m : Message}
    (hm : decodePayload payload = .ok m) (rest : Bytes) :
    decode (framed payload ++ rest) = .ok (m, (framed payload).length) := by
  have hform : LengthForm payload.length (0xce :: Bytes.ofNat 4 payload.length) :=
    .four (Nat.lt_succ_of_le h32)
  rw [framed, List.append_assoc, decode_spelled hform.spelling, hm]
  rfl

/-- A message can be written exactly if every value in it can and its maps take at most
`2 ^ 32 - 1` bytes together. What is written is the length, the header and the body; and where no
value lies too deep for the map around it, both readers give the message back in canonical form and
leave what follows it. -/
theorem written_then_read (m : Message) :
    ((∃ e, encode m = .ok e) ↔
      (∀ v ∈ m.values, ∃ value, Wire.encode v = .ok value) ∧
        ∀ header body, m.header.Written header → m.body.Written body →
          (header ++ body).length ≤ 2 ^ 32 - 1) ∧
    ∀ e, encode m = .ok e → ∃ header body,
      m.header.Written header ∧ m.body.Written body ∧
        e = 0xce :: Bytes.ofNat 4 (header ++ body).length ++ (header ++ body) ∧
        ((∀ v ∈ m.values, ∀ n w, Value.At n w v → n ≤ 511) → ∀ rest,
          decode (e ++ rest) = .ok (m.canonical, e.length) ∧
            ∀ limit, (header ++ body).length ≤ limit →
              receive limit (e ++ rest) = .message m.canonical rest) := by
  constructor
  · constructor
    · rintro ⟨e, he⟩
      obtain ⟨header, body, hheader, hbody, hle, -⟩ := encode_eq_ok_iff.1 he
      refine ⟨?_, fun header' body' hheader' hbody' => ?_⟩
      · rw [Message.values, List.forall_mem_map, List.forall_mem_append]
        exact ⟨Fields.exists_written_iff.1 ⟨header, hheader⟩,
          Fields.exists_written_iff.1 ⟨body, hbody⟩⟩
      · rwa [hheader.unique hheader', hbody.unique hbody'] at hle
    · rintro ⟨hvalues, hle⟩
      rw [Message.values, List.forall_mem_map, List.forall_mem_append] at hvalues
      obtain ⟨header, hheader⟩ := Fields.exists_written_iff.2 hvalues.1
      obtain ⟨body, hbody⟩ := Fields.exists_written_iff.2 hvalues.2
      exact ⟨_, encode_eq_ok_iff.2
        ⟨header, body, hheader, hbody, hle header body hheader hbody, rfl⟩⟩
  · intro e he
    obtain ⟨header, body, hheader, hbody, hle, hframed⟩ := encode_eq_ok_iff.1 he
    refine ⟨header, body, hheader, hbody, hframed, fun hat rest => ?_⟩
    have hdeep : ∀ v ∈ m.values, v.nesting < Wire.maxDepth :=
      fun v hv => Nat.lt_succ_of_le (Value.nesting_le_iff.2 (hat v hv))
    have hpayload := decodePayload_written hheader hbody hdeep
    obtain rfl : e = framed (header ++ body) := hframed
    refine ⟨decode_of_framed hle hpayload rest, fun limit hlimit => ?_⟩
    rw [receive_of_framed hle hlimit, Outcome.ofPayload, hpayload]

/-- A key above 127, a value that comes back in another form, and a byte behind the frame that is
left alone. -/
theorem written_then_read_of_large_key :
    let m : Message :=
      ⟨⟨[(0, .int 300), (200, .nil)], by simp⟩, ⟨[(16, .ext 2 (.replicate 16 7))], by simp⟩⟩
    let e : Bytes :=
      [0xce, 0, 0, 0, 28, 0x82, 0, 0xcd, 1, 44, 0xcc, 200, 0xc0, 0x81, 16, 0xd8, 2] ++
      List.replicate 16 7
    let back : Message :=
      ⟨m.header, ⟨[(16, .uuid ⟨.replicate 16 7, rfl⟩)], by simp⟩⟩
    encode m = .ok e ∧ (∀ v ∈ m.values, ∀ n w, Value.At n w v → n ≤ 511) ∧
      decode (e ++ [0xc1]) = .ok (back, 33) ∧ receive 28 (e ++ [0xc1]) = .message back [0xc1] := by
  intro m e back
  have he : encode m = .ok e := by decide +kernel
  have hat : ∀ v ∈ m.values, ∀ n w, Value.At n w v → n ≤ 511 := by
    have hdeep : ∀ v ∈ m.values, v.nesting ≤ 511 := by decide
    exact fun v hv => Value.nesting_le_iff.1 (hdeep v hv)
  obtain ⟨header, body, -, -, hframed, hread⟩ := (written_then_read m).2 e he
  have hlength : e.length = (header ++ body).length + 5 := by
    rw [hframed, List.length_append, List.length_cons, Bytes.length_ofNat, Nat.add_comm]
  have hpayload : (header ++ body).length ≤ 28 := by
    have htotal : e.length = 33 := rfl
    omega
  obtain ⟨hdecode, hreceive⟩ := hread hat [0xc1]
  exact ⟨he, hat, hdecode, hreceive 28 hpayload⟩

end Frame
end TupleClient
