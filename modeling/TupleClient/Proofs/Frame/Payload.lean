import Mathlib.Data.List.Sort
import TupleClient.Proofs.Frame.RoundTrip
import TupleClient.Proofs.Wire.Shortest

/-!
A payload is one map or two, with a byte for each key. What is read of it can be written again, in
hardly more bytes.
-/
namespace TupleClient

theorem Value.byte?_eq_some_iff {v : Value} {key : UInt8} :
    v.byte? = some key ↔ v = .int key.toNat := by
  constructor
  · intro h
    rw [byte?] at h
    split at h
    · rename_i n hn
      split at h
      · rename_i hlt
        rw [← Option.some.inj h, Wire.toNat_ofNat_byte hlt]
        exact eq_of_nat64? hn
      · cases h
    · cases h
  · intro h
    rw [h]
    exact Fields.byte?_key key

namespace Fields

variable {entries rest : List (Value × Value)} {f g : Fields} {key : UInt8}

theorem eq_of_get? (h : ∀ key v, f.get? key = some v ↔ g.get? key = some v) : f = g := by
  have hantisymm : Std.Antisymm fun x y : UInt8 × Value => x.1 < y.1 :=
    ⟨fun _ _ hlt hgt => absurd hgt (UInt8.lt_asymm hlt)⟩
  have hirrefl : Std.Irrefl fun x y : UInt8 × Value => x.1 < y.1 := ⟨fun _ => UInt8.lt_irrefl _⟩
  have hentries : f.entries = g.entries :=
    f.sorted.eq_of_mem_iff g.sorted fun (key, v) =>
      get?_eq_some_iff.symm.trans ((h key v).trans get?_eq_some_iff)
  cases f
  cases g
  cases hentries
  rfl

/-- The value stands under the key, and no entry behind it has that key. -/
def StandsLast (entries : List (Value × Value)) (key : UInt8) (v : Value) : Prop :=
  ∃ before after, entries = before ++ (.int key.toNat, v) :: after ∧
    ∀ e ∈ after, e.1 ≠ .int key.toNat

/-- The fields that a map has: its keys are bytes, and under each key is what stands last under
it. -/
structure Of (entries : List (Value × Value)) (f : Fields) : Prop where
  keys : ∀ e ∈ entries, ∃ key : UInt8, e.1 = .int key.toNat
  last : ∀ key v, f.get? key = some v ↔ StandsLast entries key v

theorem not_standsLast_nil {v : Value} : ¬StandsLast [] key v := by
  intro h
  obtain ⟨before, after, hentries, -⟩ := h
  exact absurd hentries.symm (List.append_ne_nil_of_right_ne_nil before (List.cons_ne_nil _ _))

theorem standsLast_cons {k v w : Value} :
    StandsLast ((k, v) :: rest) key w ↔
      StandsLast rest key w ∨ k = .int key.toNat ∧ v = w ∧ ∀ e ∈ rest, e.1 ≠ .int key.toNat := by
  constructor
  · intro h
    obtain ⟨before, after, hentries, hafter⟩ := h
    cases before with
    | nil =>
      cases hentries
      exact .inr ⟨rfl, rfl, hafter⟩
    | cons x before =>
      cases hentries
      exact .inl ⟨before, after, rfl, hafter⟩
  · intro h
    obtain ⟨before, after, hentries, hafter⟩ | ⟨hkey, hv, hrest⟩ := h
    · exact ⟨(k, v) :: before, after, by rw [hentries, List.cons_append], hafter⟩
    · exact ⟨[], rest, by rw [hkey, hv, List.nil_append], hrest⟩

theorem StandsLast.mem {v : Value} (h : StandsLast entries key v) :
    (.int key.toNat, v) ∈ entries := by
  obtain ⟨before, after, rfl, -⟩ := h
  exact List.mem_append_right _ List.mem_cons_self

theorem int_toNat_inj {key other : UInt8} :
    (Value.int key.toNat = .int other.toNat) ↔ key = other := by
  rw [Value.int.injEq, Int.natCast_inj, UInt8.toNat_inj]

end Fields

namespace Frame

open Fields Wire

variable {entries : List (Value × Value)} {f g : Fields} {bs : Bytes}

theorem exists_fieldsOfEntries (h : ∀ e ∈ entries, ∃ key : UInt8, e.1 = .int key.toNat)
    (f : Fields) : ∃ g, fieldsOfEntries entries f = .ok g := by
  induction entries generalizing f with
  | nil => exact ⟨f, rfl⟩
  | cons e rest ih =>
    obtain ⟨k, v⟩ := e
    obtain ⟨⟨key, hkey⟩, hrest⟩ := List.forall_mem_cons.1 h
    rw [fieldsOfEntries, Value.byte?_eq_some_iff.2 hkey]
    exact ih hrest (f.insert key v)

theorem keys_of_fieldsOfEntries (h : fieldsOfEntries entries f = .ok g) :
    ∀ e ∈ entries, ∃ key : UInt8, e.1 = .int key.toNat := by
  induction entries generalizing f with
  | nil => exact fun _ => nofun
  | cons e rest ih =>
    obtain ⟨k, v⟩ := e
    rw [fieldsOfEntries] at h
    split at h
    · rename_i key hkey
      exact List.forall_mem_cons.2 ⟨⟨key, Value.byte?_eq_some_iff.1 hkey⟩, ih h⟩
    · cases h

/-- An entry is put in place of what was there under its key, so the last one stays. -/
theorem get?_of_fieldsOfEntries (h : fieldsOfEntries entries f = .ok g) (key : UInt8) (v : Value) :
    g.get? key = some v ↔
      StandsLast entries key v ∨ f.get? key = some v ∧ ∀ e ∈ entries, e.1 ≠ .int key.toNat := by
  induction entries generalizing f with
  | nil =>
    cases h
    simp [not_standsLast_nil]
  | cons e rest ih =>
    obtain ⟨k, w⟩ := e
    rw [fieldsOfEntries] at h
    split at h
    · rename_i other hother
      obtain rfl := Value.byte?_eq_some_iff.1 hother
      rw [ih h, standsLast_cons, List.forall_mem_cons, int_toNat_inj, or_assoc]
      by_cases hkey : other = key
      · subst hkey
        have hget : (f.insert other w).get? other = some w := lookup_insertInto ..
        simp [hget]
      · have hget : (f.insert other w).get? key = f.get? key :=
          lookup_insertInto_of_ne (Ne.symm hkey) ..
        have hne : Value.int other.toNat ≠ .int key.toNat := fun heq => hkey (int_toNat_inj.1 heq)
        simp [hget, hkey, hne]
    · cases h

theorem fieldsOfEntries_eq_ok_iff : fieldsOfEntries entries .empty = .ok f ↔ f.Of entries := by
  have hof {g : Fields} (h : fieldsOfEntries entries .empty = .ok g) : g.Of entries := by
    refine ⟨keys_of_fieldsOfEntries h, fun key v => (get?_of_fieldsOfEntries h key v).trans ?_⟩
    have hempty : Fields.empty.get? key = none := rfl
    simp [hempty]
  constructor
  · exact hof
  · intro h
    obtain ⟨g, hg⟩ := exists_fieldsOfEntries h.keys .empty
    have heq : g = f := eq_of_get? fun key v => ((hof hg).last key v).trans (h.last key v).symm
    rw [hg, heq]

theorem fieldsOfValue_eq_ok_iff {v : Value} :
    fieldsOfValue v = .ok f ↔ ∃ entries, v = .map entries ∧ f.Of entries := by
  constructor
  · intro h
    unfold fieldsOfValue at h
    split at h
    · rename_i entries
      exact ⟨entries, rfl, fieldsOfEntries_eq_ok_iff.1 h⟩
    · cases h
  · intro h
    obtain ⟨entries, rfl, hof⟩ := h
    exact fieldsOfEntries_eq_ok_iff.2 hof

/-- The bytes of a map, in any form, with at most 512 arrays and maps around any part of it. -/
def EncodedMap (entries : List (Value × Value)) (bs : Bytes) : Prop :=
  Spelling (.map entries) bs ∧ ∀ depth part, Value.At depth part (.map entries) → depth ≤ 512

def Encodes (f : Fields) (bs : Bytes) : Prop := ∃ entries, EncodedMap entries bs ∧ f.Of entries

theorem read_of_encodes (h : Encodes f bs) (rest : Bytes) :
    ∃ v, read (bs ++ rest) = .ok (v, rest) ∧ fieldsOfValue v = .ok f := by
  obtain ⟨entries, ⟨hspelling, hdepth⟩, hof⟩ := h
  exact ⟨.map entries, read_eq_ok_iff.2 ⟨bs, rfl, hspelling, Value.nesting_le_iff.2 hdepth⟩,
    fieldsOfValue_eq_ok_iff.2 ⟨entries, rfl, hof⟩⟩

theorem encodes_of_read {v : Value} {rest : Bytes} (h : read bs = .ok (v, rest))
    (hf : fieldsOfValue v = .ok f) : ∃ used, bs = used ++ rest ∧ Encodes f used := by
  obtain ⟨used, hbs, hspelling, hnesting⟩ := read_eq_ok_iff.1 h
  obtain ⟨entries, rfl, hof⟩ := fieldsOfValue_eq_ok_iff.1 hf
  exact ⟨used, hbs, entries, ⟨hspelling, Value.nesting_le_iff.1 hnesting⟩, hof⟩

theorem Encodes.ne_nil (h : Encodes f bs) : bs ≠ [] := by
  obtain ⟨entries, ⟨hspelling, -⟩, -⟩ := h
  exact List.ne_nil_of_length_pos hspelling.length_pos

theorem decodePayload_eq_ok_iff {p : Bytes} {m : Message} :
    decodePayload p = .ok m ↔
      (Encodes m.header p ∧ m.body = .empty) ∨
        ∃ header body, p = header ++ body ∧ Encodes m.header header ∧ Encodes m.body body := by
  constructor
  · intro h
    obtain ⟨⟨first, rest⟩, hread, h⟩ := bind_ok h
    obtain ⟨header, hheader, h⟩ := bind_ok h
    obtain ⟨used, rfl, hencodes⟩ := encodes_of_read hread hheader
    split at h
    · rename_i hrest
      rw [List.isEmpty_iff.1 hrest, List.append_nil]
      cases h
      exact .inl ⟨hencodes, rfl⟩
    · obtain ⟨⟨second, last⟩, hread, h⟩ := bind_ok h
      obtain ⟨body, hbody, h⟩ := bind_ok h
      obtain ⟨more, rfl, hencodes'⟩ := encodes_of_read hread hbody
      split at h
      · rename_i hlast
        rw [List.isEmpty_iff.1 hlast, List.append_nil]
        cases h
        exact .inr ⟨used, more, rfl, hencodes, hencodes'⟩
      · cases h
  · intro h
    obtain ⟨hheader, hbody⟩ | ⟨header, body, rfl, hheader, hbody⟩ := h
    · obtain ⟨v, hread, hv⟩ := read_of_encodes hheader []
      rw [List.append_nil] at hread
      simp only [decodePayload, hread, hv, bind, Except.bind, List.isEmpty_nil, if_true]
      rw [← hbody]
    · obtain ⟨first, hfirst, hheader⟩ := read_of_encodes hheader body
      have hrest : body.isEmpty = false := List.isEmpty_eq_false_iff.2 hbody.ne_nil
      obtain ⟨second, hsecond, hbody⟩ := read_of_encodes hbody []
      rw [List.append_nil] at hsecond
      simp only [decodePayload, hfirst, hheader, hrest, hsecond, hbody, bind, Except.bind,
        Bool.false_eq_true, if_false, List.isEmpty_nil, if_true]

end Frame

namespace Fields

variable {f g : Fields} {bs : Bytes}

theorem EntriesWritten.insertInto {entries : List (UInt8 × Value)} {bytes value : Bytes}
    {v : Value} (h : EntriesWritten entries bytes) (key : UInt8) (hv : Wire.encode v = .ok value) :
    ∃ bytes', EntriesWritten (insertInto key v entries) bytes' ∧
      bytes'.length ≤ (keyBytes key ++ value).length + bytes.length := by
  induction h with
  | nil =>
    refine ⟨_, .cons hv .nil, ?_⟩
    rw [List.append_nil]
    exact Nat.le_refl _
  | @cons k w rest old others hold hrest ih =>
    rw [Fields.insertInto]
    split
    · refine ⟨_, .cons hv (.cons hold hrest), ?_⟩
      exact Nat.le_of_eq (List.length_append ..)
    · split
      · refine ⟨_, .cons hv hrest, ?_⟩
        simp only [List.length_append]
        omega
      · obtain ⟨more, hmore, hle⟩ := ih
        refine ⟨_, .cons hold hmore, ?_⟩
        simp only [List.length_append] at hle ⊢
        omega

theorem length_insertInto_le (key : UInt8) (v : Value) (entries : List (UInt8 × Value)) :
    (insertInto key v entries).length ≤ entries.length + 1 := by
  induction entries with
  | nil => exact Nat.le_refl _
  | cons x rest ih =>
    obtain ⟨k, w⟩ := x
    rw [insertInto]
    split
    · exact Nat.le_refl _
    · split
      · exact Nat.le_succ _
      · exact Nat.succ_le_succ ih

/-- What an entry takes on the wire, the key and the value that are kept of it take no more. -/
theorem written_of_fieldsOfEntries {entries : List (Value × Value)} {body bytes : Bytes}
    (hbody : Wire.EntriesSpelling entries body) (h : Frame.fieldsOfEntries entries f = .ok g)
    (hf : EntriesWritten f.entries bytes) :
    g.entries.length ≤ f.entries.length + entries.length ∧
      ∃ bytes', EntriesWritten g.entries bytes' ∧ bytes'.length ≤ bytes.length + body.length := by
  induction entries generalizing f body bytes with
  | nil =>
    cases h
    exact ⟨Nat.le_add_right .., bytes, hf, Nat.le_add_right ..⟩
  | cons e rest ih =>
    obtain ⟨k, v⟩ := e
    cases hbody with
    | @cons _ _ _ spelled given others hk hv hothers =>
      rw [Frame.fieldsOfEntries] at h
      split at h
      · rename_i key hkey
        obtain rfl := Value.byte?_eq_some_iff.1 hkey
        obtain ⟨-, written, hwritten, hkeyLe⟩ := Wire.rewrites _ _ hk
        obtain ⟨-, value, hvalue, hvalueLe⟩ := Wire.rewrites _ _ hv
        have hkeyBytes : written = keyBytes key :=
          Except.ok.inj (hwritten.symm.trans (encode_key key))
        subst hkeyBytes
        obtain ⟨inserted, hinserted, hle⟩ := hf.insertInto key hvalue
        obtain ⟨hlength, bytes', hbytes', hall⟩ := ih hothers h hinserted
        have hinsert := length_insertInto_le key v f.entries
        refine ⟨?_, bytes', hbytes', ?_⟩
        · rw [List.length_cons]
          exact Nat.le_trans hlength (by simp only [insert]; omega)
        · simp only [List.length_append] at hle ⊢
          omega
      · cases h

theorem length_countBytes_le {length : Wire.Length} {b : UInt8} {field : Bytes} {kept given : Nat}
    (hb : Wire.Begins b (.map length)) (hgives : length.Gives given field) (h : kept ≤ given) :
    (countBytes kept).length ≤ field.length + 1 := by
  rw [countBytes]
  split
  · exact Nat.le_add_left ..
  · rw [List.length_cons, Bytes.length_ofNat]
    cases hb with
    | fixMap hn =>
      cases hgives
      omega
    | map16 => exact Nat.succ_le_succ (Nat.le_of_eq hgives.fits.1.symm)
    | map32 =>
      have hfield := hgives.fits.1
      omega

theorem canonical_eq_self (h : ∀ x ∈ f.entries, x.2.canonical = x.2) : f.canonical = f := by
  have hsame : ∀ x ∈ f.entries, (x.1, x.2.canonical) = x := fun x hx => by rw [h x hx]
  have hentries : (f.entries.map fun x => (x.1, x.2.canonical)) = f.entries := by
    rw [List.map_congr_left hsame, List.map_id']
  cases f
  rw [canonical, mk.injEq]
  exact hentries

/-- Fields that were read from a map can be written in no more bytes, are in canonical form, and lie
no deeper than a map has room for. -/
theorem written_of_encodes (h : Frame.Encodes f bs) :
    f.canonical = f ∧ (∀ x ∈ f.entries, x.2.nesting < Wire.maxDepth) ∧
      ∃ bytes, f.Written bytes ∧ bytes.length ≤ bs.length := by
  obtain ⟨entries, ⟨hspelling, hdepth⟩, hof⟩ := h
  have hmem : ∀ x ∈ f.entries, (.int x.1.toNat, x.2) ∈ entries :=
    fun x hx => ((hof.last x.1 x.2).1 (get?_eq_some_iff.2 hx)).mem
  have hcanonical := (Wire.rewrites _ _ hspelling).1
  rw [Value.canonical, Value.canonicalEntries_eq, Value.map.injEq] at hcanonical
  have heach := List.map_inj_left.1 (hcanonical.trans (List.map_id entries).symm)
  have hnesting : Value.nestingEntries entries < Wire.maxDepth + 1 :=
    Nat.lt_succ_of_le (Value.nesting_le_iff.2 hdepth)
  refine ⟨canonical_eq_self fun x hx => (Prod.ext_iff.1 (heach _ (hmem x hx))).2,
    fun x hx => (Value.nestingEntries_lt.1 hnesting _ (hmem x hx)).2, ?_⟩
  cases hspelling with
  | constant hb => cases hb
  | map hb hgives hentries =>
    obtain ⟨hcount, written, hwritten, hle⟩ :=
      written_of_fieldsOfEntries hentries (Frame.fieldsOfEntries_eq_ok_iff.2 hof) .nil
    have hkept : f.entries.length ≤ entries.length := by
      rwa [empty, List.length_nil, Nat.zero_add] at hcount
    have hhead := length_countBytes_le hb hgives hkept
    refine ⟨_, ⟨written, hwritten, rfl⟩, ?_⟩
    rw [List.length_nil] at hle
    simp only [List.length_append, List.length_cons]
    omega

end Fields

namespace Frame

open Fields Wire

theorem encodes_empty : Encodes .empty [0x80] := by
  have hmarker : Begins 0x80 (.map (.fixed 0)) := begins_ofByte (by decide)
  have hspelling : Spelling (.map []) (0x80 :: ([] ++ [])) := .map hmarker (.fixed 0) .nil
  refine ⟨[], ⟨hspelling, ?_⟩, fieldsOfEntries_eq_ok_iff.1 rfl⟩
  exact Value.nesting_le_iff.1 (Nat.zero_le _)

theorem rewrite_payload {p : Bytes} {m : Message} (h : decodePayload p = .ok m) :
    ∃ header body, m.header.Written header ∧ m.body.Written body ∧
      (header ++ body).length ≤ p.length + 1 ∧ decodePayload (header ++ body) = .ok m := by
  have hparts : ∃ header body, header.length + body.length ≤ p.length + 1 ∧
      Encodes m.header header ∧ Encodes m.body body := by
    obtain ⟨hheader, hbody⟩ | ⟨header, body, rfl, hheader, hbody⟩ := decodePayload_eq_ok_iff.1 h
    · rw [hbody]
      exact ⟨p, [0x80], Nat.le_refl _, hheader, encodes_empty⟩
    · refine ⟨header, body, ?_, hheader, hbody⟩
      rw [List.length_append]
      exact Nat.le_succ _
  obtain ⟨header, body, hlength, hheader, hbody⟩ := hparts
  obtain ⟨hheaderForm, hheaderDeep, header', hheader', hheaderLe⟩ := written_of_encodes hheader
  obtain ⟨hbodyForm, hbodyDeep, body', hbody', hbodyLe⟩ := written_of_encodes hbody
  have hdeep : ∀ v ∈ m.values, v.nesting < maxDepth := by
    rw [Message.values, List.forall_mem_map, List.forall_mem_append]
    exact ⟨hheaderDeep, hbodyDeep⟩
  have hback := decodePayload_written hheader' hbody' hdeep
  rw [Message.canonical, hheaderForm, hbodyForm] at hback
  refine ⟨header', body', hheader', hbody', ?_, hback⟩
  rw [List.length_append]
  omega

/-- A payload is read exactly if it is one map or two, to the last byte, with bytes for keys and no
part in more than 512 arrays and maps. Under each key is what stands last under it, and a missing
body is empty. What was read is written again in at most six bytes more, where a length in four
bytes has room for it, and is read from there as the same message. -/
theorem decodePayload_exact_and_stable (p : Bytes) :
    (∀ m, decodePayload p = .ok m ↔
      (Encodes m.header p ∧ m.body = .empty) ∨
        ∃ header body, p = header ++ body ∧ Encodes m.header header ∧ Encodes m.body body) ∧
    (p.length < 2 ^ 32 - 1 → ∀ m, decodePayload p = .ok m →
      ∃ e, encode m = .ok e ∧ e.length ≤ p.length + 6 ∧ decode e = .ok (m, e.length)) := by
  refine ⟨fun m => decodePayload_eq_ok_iff, fun hp m h => ?_⟩
  obtain ⟨header, body, hheader, hbody, hlength, hback⟩ := rewrite_payload h
  have hroom : (header ++ body).length ≤ maxUnsigned32 := by
    simp only [maxUnsigned32]
    omega
  have hdecode := decode_of_framed hroom hback []
  rw [List.append_nil] at hdecode
  refine ⟨framed (header ++ body), encode_eq_ok_iff.2 ⟨header, body, hheader, hbody, hroom, rfl⟩,
    ?_, hdecode⟩
  rw [framed, List.length_append, List.length_cons, Bytes.length_ofNat]
  omega

/-- Of two equal keys, in different forms, the second one's value stays. -/
theorem decodePayload_exact_and_stable_of_equal_keys :
    let p : Bytes := [0x83, 0, 1, 0xcc, 0, 0xc0, 0xd1, 0, 200, 5]
    let m : Message := ⟨⟨[(0, .nil), (200, .int 5)], by simp⟩, .empty⟩
    decodePayload p = .ok m ∧ p.length < 2 ^ 32 - 1 ∧
      ((Encodes m.header p ∧ m.body = .empty) ∨
        ∃ header body, p = header ++ body ∧ Encodes m.header header ∧ Encodes m.body body) ∧
      ∃ e, encode m = .ok e ∧ e.length ≤ 16 ∧ decode e = .ok (m, e.length) := by
  intro p m
  have hm : decodePayload p = .ok m := rfl
  have hp : p.length < 2 ^ 32 - 1 := by decide
  obtain ⟨hexact, hstable⟩ := decodePayload_exact_and_stable p
  exact ⟨hm, hp, (hexact m).1 hm, hstable hp m hm⟩

theorem spelling_wrapped_nil (n : Nat) :
    Spelling (wrapped n .nil) (List.replicate n 0x91 ++ [0xc0]) := by
  induction n with
  | zero => exact .constant .nil
  | succ n ih =>
    have hmarker : Begins 0x91 (.array (.fixed 1)) := begins_ofByte (by decide)
    have hitems : ItemsSpelling [wrapped n .nil] (List.replicate n 0x91 ++ [0xc0] ++ []) :=
      .cons ih .nil
    rw [List.append_nil] at hitems
    show Spelling _ (0x91 :: ([] ++ (List.replicate n 0x91 ++ [0xc0])))
    exact .array hmarker (.fixed 1) hitems

/-- A map of one entry, with `n` arrays around the innermost value. -/
def deepPayload (n : Nat) : Bytes := 0x81 :: ([] ++ ([0] ++ (List.replicate n 0x91 ++ [0xc0])))

def deepFields (n : Nat) : Fields := ⟨[(0, wrapped n .nil)], by simp⟩

theorem spelling_deepPayload (n : Nat) :
    Spelling (.map [(.int 0, wrapped n .nil)]) (deepPayload n) := by
  have hmarker : Begins 0x81 (.map (.fixed 1)) := begins_ofByte (by decide)
  have hkey : Spelling (.int 0) [0] := .constant (begins_ofByte (by decide))
  have hentries : EntriesSpelling [(.int 0, wrapped n .nil)]
      ([0] ++ (List.replicate n 0x91 ++ [0xc0] ++ [])) :=
    .cons hkey (spelling_wrapped_nil n) .nil
  rw [List.append_nil] at hentries
  exact .map hmarker (.fixed 1) hentries

theorem decodePayload_deepPayload {n : Nat} (h : maxDepth ≤ n) :
    decodePayload (deepPayload n) = .error (.tooDeep maxDepth) := by
  have hwritten : (deepFields n).Written (deepPayload n) :=
    ⟨_, .cons (encode_wrapped_nil n) .nil, by
      simp [deepPayload, deepFields, countBytes, keyBytes]⟩
  have hdeep : ¬(deepFields n).toValue.nesting < maxDepth + 1 := by
    rw [nesting_toValue_lt (by decide), deepFields, List.forall_mem_singleton, nesting_wrapped_nil]
    exact Nat.not_lt.2 h
  have hread := readsBack _ _ (encode_toValue_eq_ok_iff.2 hwritten) (maxDepth + 1) []
  rw [if_neg hdeep, List.append_nil] at hread
  rw [decodePayload, Wire.read, hread]
  rfl

/-- A map around 512 arrays is a map with a byte for a key, but the value in the innermost array
lies too deep. -/
theorem payload_of_512_arrays_refused :
    let m : Message := ⟨deepFields 512, .empty⟩
    decodePayload (deepPayload 512) = .error (.tooDeep 512) ∧
      ¬(decodePayload (deepPayload 512) = .ok m ↔
        (∃ entries, Spelling (.map entries) (deepPayload 512) ∧ m.header.Of entries ∧
          m.body = .empty) ∨
          ∃ header body first second, deepPayload 512 = header ++ body ∧
            Spelling (.map first) header ∧ Spelling (.map second) body ∧
            m.header.Of first ∧ m.body.Of second) := by
  intro m
  have hrefused := decodePayload_deepPayload (Nat.le_refl maxDepth)
  refine ⟨hrefused, fun hiff => ?_⟩
  have hof : m.header.Of [(.int 0, wrapped 512 .nil)] := fieldsOfEntries_eq_ok_iff.1 rfl
  have hok := hiff.2 (.inl ⟨_, spelling_deepPayload 512, hof, rfl⟩)
  cases hrefused.symm.trans hok

end Frame
end TupleClient
