import TupleClient.Proofs.Frame.Stream
import TupleClient.Proofs.Wire.Acceptance

/-!
The two readers of frames. One reads the length as it reads any number, the other knows the
unsigned forms only; where a length is in one of these, they say the same.
-/
namespace TupleClient

theorem Value.eq_of_nat64? {v : Value} {n : Nat} (h : v.nat64? = some n) : v = .int n := by
  cases v with
  | int i =>
    rw [Value.nat64?] at h
    split at h
    · rename_i hi
      rw [← Option.some.inj h, Int.toNat_of_nonneg hi.1]
    · cases h
  | _ => cases h

namespace Frame

open Wire

variable {limit n : Nat} {b : UInt8} {head payload : Bytes}

theorem signed_of_begins {width : Nat} (h : Begins b (.signed width)) :
    (0xd0 ≤ b ∧ b ≤ 0xd3) ∧ 0 < width := by
  cases h <;> decide

theorem receive_signed {width : Nat} (h : Begins b (.signed width)) (bs : Bytes) :
    receive limit (b :: bs) = .malformed (.invalidMarker b) bs := by
  simp only [receive, h.ofByte_eq]

theorem LengthForm.not_signed {field : Bytes} (h : LengthForm n (b :: field)) :
    ¬(0xd0 ≤ b ∧ b ≤ 0xd3) := by
  cases h with
  | small hn =>
    intro hsigned
    have hle := UInt8.le_iff_toNat_le.1 hsigned.1
    rw [toNat_ofNat_byte (by omega)] at hle
    exact absurd hn (Nat.not_lt.2 (Nat.le_trans (by decide) hle))
  | _ => decide

theorem lengthForm_or_signed (h : Spelling (.int n) head) :
    LengthForm n head ∨ ∃ b width field, head = b :: field ∧ Begins b (.signed width) ∧
      field.length = width ∧ 2 * n < Bytes.limit width := by
  generalize hv : Value.int n = v at h
  cases h with
  | @constant b v hb =>
    subst hv
    generalize hi : (n : Int) = i at hb
    cases hb with
    | number hn =>
      obtain rfl := Int.ofNat.inj hi
      exact .inl (.small hn)
    | negative hk => omega
  | @unsigned b width k hb hk =>
    obtain rfl := Int.ofNat.inj (Value.int.inj hv)
    left
    cases hb with
    | unsigned8 => exact .one hk
    | unsigned16 => exact .two hk
    | unsigned32 => exact .four hk
    | unsigned64 => exact .eight hk
  | @signed b width i hb hlo hhi =>
    obtain rfl := Value.int.inj hv
    exact .inr ⟨b, width, _, rfl, hb, Bytes.length_ofInt .., by omega⟩
  | _ => cases hv

theorem LengthForm.spelling (h : LengthForm n head) : Spelling (.int n) head := by
  cases h with
  | small hn => exact .constant (.number hn)
  | one hn => exact .unsigned .unsigned8 hn
  | two hn => exact .unsigned .unsigned16 hn
  | four hn => exact .unsigned .unsigned32 hn
  | eight hn => exact .unsigned .unsigned64 hn

theorem nat64?_of_spelling (h : Spelling (.int n) head) : (Value.int n).nat64? = some n := by
  have hle : (n : Int) ≤ maxUnsigned64 := by
    simp only [maxUnsigned64]
    obtain hform | ⟨b, width, field, -, hb, -, hlt⟩ := lengthForm_or_signed h
    · cases hform <;> omega
    · cases hb <;> simp only [limit_one, limit_two, limit_four, limit_eight] at hlt <;> omega
  rw [Value.nat64?, if_pos ⟨Int.natCast_nonneg n, hle⟩, Int.toNat_natCast]

theorem decode_spelled (h : Spelling (.int payload.length) head) (rest : Bytes) :
    decode (head ++ (payload ++ rest)) =
      (decodePayload payload).map fun m => (m, (head ++ payload).length) := by
  have hnesting : (Value.int payload.length).nesting ≤ maxDepth := Nat.zero_le _
  have hread : read (head ++ (payload ++ rest)) = .ok (.int payload.length, payload ++ rest) :=
    read_eq_ok_iff.2 ⟨head, rfl, h, hnesting⟩
  rw [decode, hread]
  simp only [bind, Except.bind, nat64?_of_spelling h, take_append]
  cases decodePayload payload with
  | error e => rfl
  | ok m =>
    simp only [Except.map]
    congr 2
    simp only [List.length_append]
    omega

theorem decode_eq_ok {bs : Bytes} {m : Message} {k : Nat} (h : decode bs = .ok (m, k)) :
    ∃ head payload rest, bs = head ++ (payload ++ rest) ∧ Spelling (.int payload.length) head ∧
      decodePayload payload = .ok m ∧ k = (head ++ payload).length := by
  obtain ⟨⟨length, behind⟩, hread, hframe⟩ := bind_ok h
  obtain ⟨head, rfl, hspelling, -⟩ := read_eq_ok_iff.1 hread
  simp only at hframe
  split at hframe
  · cases hframe
  · rename_i n hn
    obtain ⟨⟨payload, rest⟩, htake, hpayload⟩ := bind_ok hframe
    obtain ⟨rfl, rfl⟩ := take_eq_ok htake
    obtain ⟨m', hm, hcount⟩ := bind_ok hpayload
    cases hcount
    obtain rfl := Value.eq_of_nat64? hn
    refine ⟨head, payload, rest, rfl, hspelling, hm, ?_⟩
    simp only [List.length_append]
    omega

theorem LengthForm.of_begins {width : Nat} {field : Bytes} (hb : Begins b (.unsigned width))
    (h : field.length = width) : LengthForm field.toNat (b :: field) := by
  have hlt := Bytes.toNat_lt_limit field
  have hfield := Bytes.ofNat_toNat field
  rw [h] at hlt hfield
  rw [← hfield, Bytes.toNat_ofNat hlt]
  cases hb with
  | unsigned8 => exact .one hlt
  | unsigned16 => exact .two hlt
  | unsigned32 => exact .four hlt
  | unsigned64 => exact .eight hlt

/-- The stream ends inside of the length, or its first byte is no length, or a length in an unsigned
form is followed by the payload. -/
theorem receive_eq (limit : Nat) (bs : Bytes) :
    receive limit bs = .incomplete ∨
      (∃ b rest, bs = b :: rest ∧ receive limit bs = .malformed (.invalidMarker b) rest) ∨
      ∃ n head rest, LengthForm n head ∧ bs = head ++ rest ∧
        receive limit bs = receivePayload limit n rest := by
  cases bs with
  | nil => exact .inl rfl
  | cons b bs =>
    by_cases hreserved : b = 0xc1
    · subst hreserved
      exact .inr (.inl ⟨0xc1, bs, rfl, rfl⟩)
    have hb := begins_ofByte hreserved
    generalize hform : Form.ofByte b = form at hb
    cases form with
    | constant v =>
      cases hb with
      | @number n hn =>
        have hhead : LengthForm n [UInt8.ofNat n] := .small hn
        exact .inr (.inr ⟨n, _, bs, hhead, rfl, hhead.receive_append bs⟩)
      | @negative n hn =>
        have hneg : ¬(0 : Int) ≤ n - 32 := by omega
        refine .inr (.inl ⟨_, bs, rfl, ?_⟩)
        simp only [receive, hform, if_neg hneg]
      | _ => exact .inr (.inl ⟨_, bs, rfl, rfl⟩)
    | unsigned width =>
      cases hsplit : Bytes.split? width bs with
      | none =>
        left
        simp only [receive, hform, hsplit]
      | some split =>
        obtain ⟨field, rest⟩ := split
        obtain ⟨rfl, hwidth⟩ := Bytes.split?_eq_some hsplit
        have hhead := LengthForm.of_begins hb hwidth
        exact .inr (.inr ⟨_, _, rest, hhead, rfl, hhead.receive_append rest⟩)
    | _ =>
      refine .inr (.inl ⟨b, bs, rfl, ?_⟩)
      simp only [receive, hform]

theorem receivePayload_cases (limit n : Nat) (bs : Bytes) :
    (limit < n ∧ receivePayload limit n bs = .malformed (.frameTooLarge n limit) bs) ∨
      receivePayload limit n bs = .incomplete ∨
      ∃ payload rest, bs = payload ++ rest ∧ payload.length = n ∧ n ≤ limit ∧
        receivePayload limit n bs = .ofPayload payload rest := by
  by_cases hlimit : limit < n
  · exact .inl ⟨hlimit, by rw [receivePayload, if_pos hlimit]⟩
  · right
    cases hsplit : Bytes.split? n bs with
    | none =>
      left
      simp only [receivePayload, if_neg hlimit, hsplit]
    | some split =>
      obtain ⟨payload, rest⟩ := split
      obtain ⟨rfl, rfl⟩ := Bytes.split?_eq_some hsplit
      have hle := Nat.not_lt.1 hlimit
      exact .inr ⟨payload, rest, rfl, rfl, hle, receivePayload_append hle rest⟩

theorem Outcome.ofPayload_eq_message {rest rest' : Bytes} {m : Message}
    (h : Outcome.ofPayload payload rest = .message m rest') :
    decodePayload payload = .ok m ∧ rest = rest' := by
  unfold Outcome.ofPayload at h
  split at h
  · rename_i hm
    cases h
    exact ⟨hm, rfl⟩
  · cases h

theorem Outcome.ofPayload_eq_malformed {rest rest' : Bytes} {e : CodecError}
    (h : Outcome.ofPayload payload rest = .malformed e rest') :
    decodePayload payload = .error e := by
  unfold Outcome.ofPayload at h
  split at h
  · cases h
  · rename_i he
    cases h
    exact he

theorem decode_of_receive {bs rest : Bytes} {m : Message} (h : receive limit bs = .message m rest) :
    ∃ used, bs = used ++ rest ∧ decode bs = .ok (m, used.length) := by
  obtain hnone | ⟨b, more, -, hbad⟩ | ⟨n, head, behind, hhead, rfl, hread⟩ := receive_eq limit bs
  · rw [hnone] at h
    cases h
  · rw [hbad] at h
    cases h
  · rw [hread] at h
    obtain ⟨-, hlong⟩ | hnone | ⟨payload, more, rfl, rfl, -, hpayload⟩ :=
      receivePayload_cases limit n behind
    · rw [hlong] at h
      cases h
    · rw [hnone] at h
      cases h
    · rw [hpayload] at h
      obtain ⟨hm, rfl⟩ := Outcome.ofPayload_eq_message h
      refine ⟨head ++ payload, (List.append_assoc ..).symm, ?_⟩
      rw [decode_spelled hhead.spelling, hm]
      rfl

theorem receive_lengthForm (h : LengthForm payload.length head) (rest : Bytes) :
    receive limit (head ++ (payload ++ rest)) =
      if payload.length ≤ limit then .ofPayload payload rest
      else .malformed (.frameTooLarge payload.length limit) (payload ++ rest) := by
  split
  · rename_i hle
    rw [h.receive_append, receivePayload_append hle]
  · rename_i hlong
    exact receive_too_long h (Nat.not_le.1 hlong) _

/-- Where the stream gives an error and is at the end of the frame, the frame was read whole, and
the other reader gives the same error. -/
theorem decode_of_malformed (h : Spelling (.int payload.length) head) {e : CodecError}
    {rest : Bytes} (hread : receive limit (head ++ (payload ++ rest)) = .malformed e rest) :
    decode (head ++ (payload ++ rest)) = .error e := by
  obtain hform | ⟨b, width, field, rfl, hb, hfield, -⟩ := lengthForm_or_signed h
  · rw [receive_lengthForm hform] at hread
    split at hread
    · rw [decode_spelled h, Outcome.ofPayload_eq_malformed hread]
      rfl
    · rename_i hlong
      -- The payload is longer than the limit, so the stream would not be behind it.
      have hrest := congrArg List.length (Outcome.malformed.inj hread).2
      rw [List.length_append] at hrest
      omega
  · rw [List.cons_append, receive_signed hb] at hread
    have hrest := congrArg List.length (Outcome.malformed.inj hread).2
    have hpos := (signed_of_begins hb).2
    simp only [List.length_append] at hrest
    omega

/-- What comes off a stream as a message, and what is malformed in a frame that was read whole, the
other reader finds too, in as many bytes. What the other reader finds comes off the stream as well
if it is not too long, unless its length has a sign: these are the lengths after which the stream is
left at its second byte, and the only ones. -/
theorem readers_agree (limit : Nat) (bs : Bytes) :
    (∀ m rest, receive limit bs = .message m rest →
      ∃ used, bs = used ++ rest ∧ decode bs = .ok (m, used.length)) ∧
    (∀ head payload e rest, Spelling (.int payload.length) head →
      bs = head ++ (payload ++ rest) → receive limit bs = .malformed e rest →
      decode bs = .error e) ∧
    ∀ m k, decode bs = .ok (m, k) → ∃ b field payload rest,
      bs = b :: field ++ (payload ++ rest) ∧ k = (b :: field ++ payload).length ∧
      Spelling (.int payload.length) (b :: field) ∧
      receive limit bs =
        if 0xd0 ≤ b ∧ b ≤ 0xd3 then .malformed (.invalidMarker b) (field ++ (payload ++ rest))
        else if payload.length ≤ limit then .message m rest
        else .malformed (.frameTooLarge payload.length limit) (payload ++ rest) := by
  refine ⟨fun m rest h => decode_of_receive h, fun head payload e rest h hbs hread => ?_,
    fun m k h => ?_⟩
  · subst hbs
    exact decode_of_malformed h hread
  · obtain ⟨head, payload, rest, rfl, hspelling, hm, rfl⟩ := decode_eq_ok h
    obtain hform | ⟨b, width, field, rfl, hb, -, -⟩ := lengthForm_or_signed hspelling
    · cases head with
      | nil => cases hform
      | cons b field =>
        refine ⟨b, field, payload, rest, rfl, rfl, hspelling, ?_⟩
        rw [if_neg hform.not_signed, receive_lengthForm hform, Outcome.ofPayload, hm]
    · refine ⟨b, field, payload, rest, rfl, rfl, hspelling, ?_⟩
      rw [if_pos (signed_of_begins hb).1]
      exact receive_signed hb _

/-- The same message behind a length in two bytes, with a sign and without: the stream goes on at
the second byte in one case and behind the message in the other. Without room for three bytes the
message is not read. -/
theorem readers_agree_of_signed_length :
    let ping : Message := ⟨⟨[(0, .int 0)], by simp⟩, .empty⟩
    let signed : Bytes := [0xd1, 0, 3, 0x81, 0, 0, 7]
    let unsigned : Bytes := [0xcd, 0, 3, 0x81, 0, 0, 7]
    decode signed = .ok (ping, 6) ∧ decode unsigned = .ok (ping, 6) ∧
      receive 3 signed = .malformed (.invalidMarker 0xd1) [0, 3, 0x81, 0, 0, 7] ∧
      receive 3 unsigned = .message ping [7] ∧
      receive 2 unsigned = .malformed (.frameTooLarge 3 2) [0x81, 0, 0, 7] ∧
      (∃ used, unsigned = used ++ [7] ∧ decode unsigned = .ok (ping, used.length)) ∧
      decode [1, 0xc1, 7] = .error (.invalidMarker 0xc1) ∧
      ∃ b field payload rest, signed = b :: field ++ (payload ++ rest) ∧
        6 = (b :: field ++ payload).length ∧ Spelling (.int payload.length) (b :: field) ∧
        receive 3 signed =
          if 0xd0 ≤ b ∧ b ≤ 0xd3 then .malformed (.invalidMarker b) (field ++ (payload ++ rest))
          else if payload.length ≤ 3 then .message ping rest
          else .malformed (.frameTooLarge payload.length 3) (payload ++ rest) := by
  intro ping signed unsigned
  have hsigned : decode signed = .ok (ping, 6) := rfl
  have hunsigned : receive 3 unsigned = .message ping [7] := rfl
  have hbad : receive 3 [1, 0xc1, 7] = .malformed (.invalidMarker 0xc1) [7] := rfl
  have hlength : LengthForm [0xc1].length [1] := .small (by decide)
  exact ⟨hsigned, rfl, rfl, hunsigned, rfl, (readers_agree 3 unsigned).1 ping [7] hunsigned,
    (readers_agree 3 [1, 0xc1, 7]).2.1 [1] [0xc1] _ [7] hlength.spelling rfl hbad,
    (readers_agree 3 signed).2.2 ping 6 hsigned⟩

end Frame
end TupleClient
