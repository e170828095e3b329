import TupleClient.Frame
import TupleClient.Proofs.Wire.RoundTrip

/-!
The number of a message. What was written under a number has it in its header.
-/
namespace TupleClient

theorem Fields.lookup_insertInto (key : UInt8) (v : Value) (entries : List (UInt8 × Value)) :
    (insertInto key v entries).lookup key = some v := by
  induction entries with
  | nil => rw [insertInto, List.lookup_cons_self]
  | cons x rest ih =>
    obtain ⟨k, w⟩ := x
    rw [insertInto]
    split
    · rw [List.lookup_cons_self]
    · split
      · rw [List.lookup_cons_self]
      · rename_i hne
        rw [List.lookup_cons, beq_eq_false_iff_ne.2 hne]
        exact ih

theorem Fields.lookup_insertInto_of_ne {key other : UInt8} (h : other ≠ key) (v : Value)
    (entries : List (UInt8 × Value)) :
    (insertInto key v entries).lookup other = entries.lookup other := by
  have hskip (w : Value) (rest : List (UInt8 × Value)) :
      ((key, w) :: rest).lookup other = rest.lookup other := by
    rw [List.lookup_cons, beq_eq_false_iff_ne.2 h]
  induction entries with
  | nil => rw [insertInto, hskip]
  | cons x rest ih =>
    obtain ⟨k, w⟩ := x
    rw [insertInto]
    split
    · exact hskip ..
    · split
      · rename_i heq
        rw [← heq, hskip, hskip]
      · rw [List.lookup_cons, List.lookup_cons, ih]

theorem Fields.get?_eq_some_iff {f : Fields} {key : UInt8} {v : Value} :
    f.get? key = some v ↔ (key, v) ∈ f.entries := by
  constructor
  · intro h
    obtain ⟨before, after, hentries, -⟩ := List.lookup_eq_some_iff.1 h
    rw [hentries]
    exact List.mem_append_right _ List.mem_cons_self
  · intro h
    obtain ⟨before, after, hentries⟩ := List.append_of_mem h
    refine List.lookup_eq_some_iff.2 ⟨before, after, hentries, fun x hx => ?_⟩
    -- The keys ascend, so none of those in front is this one.
    have hsorted := f.sorted
    rw [hentries] at hsorted
    have hlt := (List.pairwise_append.1 hsorted).2.2 x hx (key, v) List.mem_cons_self
    exact bne_iff_ne.2 (UInt8.ne_of_lt hlt).symm

theorem Wire.encode_of_mem_entries {entries : List (Value × Value)} {body : Bytes}
    (h : encodeEntries entries = .ok body) {k v : Value} (hmem : (k, v) ∈ entries) :
    ∃ bytes, encode v = .ok bytes := by
  induction entries generalizing body with
  | nil => cases hmem
  | cons e es ih =>
    obtain ⟨_, value, _, -, hvalue, hothers, -⟩ := encodeEntries_cons_ok h
    cases hmem with
    | head => exact ⟨value, hvalue⟩
    | tail _ hmem => exact ih hothers hmem

theorem Frame.sync?_of_encode {m : Message} {sync : Nat} {bytes : Bytes}
    (h : encode (m.withSync sync) = .ok bytes) : (m.withSync sync).sync? = some sync := by
  have hget : (m.withSync sync).header.get? Message.syncKey = some (.ofNat sync) :=
    Fields.lookup_insertInto ..
  obtain ⟨payload, hpayload, -⟩ := Wire.bind_ok h
  obtain ⟨header, hheader, -⟩ := Wire.bind_ok hpayload
  have hencode : Wire.encode (m.withSync sync).header.toValue = .ok header.toList := by
    rw [Wire.encode, hheader]
    rfl
  rw [Fields.toValue, Wire.encode_map] at hencode
  obtain ⟨head, -, hencode⟩ := Wire.bind_ok hencode
  obtain ⟨body, hbody, -⟩ := Wire.bind_ok hencode
  have hmem := Fields.get?_eq_some_iff.1 hget
  obtain ⟨number, hnumber⟩ := Wire.encode_of_mem_entries hbody (List.mem_map_of_mem hmem)
  -- A number that was written is within 64 bits.
  rw [Value.ofNat, Wire.encode_int, Wire.intBytes] at hnumber
  have hrange : ¬((sync : Int) < minSigned64 ∨ maxUnsigned64 < sync) := by
    intro hout
    rw [if_pos hout] at hnumber
    cases hnumber
  rw [Message.sync?, Message.nat64?, hget]
  simp only [Option.bind_some, Value.ofNat, Value.nat64?]
  rw [if_pos ⟨Int.natCast_nonneg sync, by omega⟩, Int.toNat_natCast]

end TupleClient
