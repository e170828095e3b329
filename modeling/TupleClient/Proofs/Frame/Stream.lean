import TupleClient.Frame
import TupleClient.Proofs.Wire.Head

/-!
A stream of frames is read frame by frame: whatever a payload holds, the next call begins at the
first byte behind it.
-/
namespace TupleClient.Frame

open Wire

variable {limit : Nat}

/-- The length of a payload in one of the unsigned forms that have room for it. -/
inductive LengthForm : Nat → Bytes → Prop where
  | small {n : Nat} (h : n < 0x80) : LengthForm n [UInt8.ofNat n]
  | one {n : Nat} (h : n < 0x100) : LengthForm n (0xcc :: Bytes.ofNat 1 n)
  | two {n : Nat} (h : n < 0x10000) : LengthForm n (0xcd :: Bytes.ofNat 2 n)
  | four {n : Nat} (h : n < 0x100000000) : LengthForm n (0xce :: Bytes.ofNat 4 n)
  | eight {n : Nat} (h : n < 0x10000000000000000) : LengthForm n (0xcf :: Bytes.ofNat 8 n)

/-- A payload of any bytes, and what stands in front of it. -/
structure Framed where
  head : Bytes
  payload : Bytes
  lengthForm : LengthForm payload.length head

def stream (fs : List Framed) : Bytes := fs.flatMap fun f => f.head ++ f.payload

def Outcome.ofPayload (payload rest : Bytes) : Outcome :=
  match decodePayload payload with
  | .ok m => .message m rest
  | .error e => .malformed e rest

/-- The outcomes of the frames of a stream that goes on with `tail`. -/
def outcomes (tail : Bytes) : List Framed → List Outcome
  | [] => []
  | f :: fs => .ofPayload f.payload (stream fs ++ tail) :: outcomes tail fs

/-- The outcomes of `n` calls, each on what the one before has left. Nothing is left where the
stream ended inside of a frame. -/
def receiveTimes (limit : Nat) : (n : Nat) → Bytes → List Outcome
  | 0, _ => []
  | n + 1, bs => receive limit bs :: receiveTimes limit n ((receive limit bs).rest?.getD [])

theorem receive_unsigned {b : UInt8} {width n : Nat} (hb : Form.ofByte b = .unsigned width)
    (hn : n < Bytes.limit width) (bs : Bytes) :
    receive limit (b :: (Bytes.ofNat width n ++ bs)) = receivePayload limit n bs := by
  have hsplit := Bytes.split?_append (Bytes.ofNat width n) bs
  rw [Bytes.length_ofNat] at hsplit
  simp only [receive, hb, hsplit, Bytes.toNat_ofNat hn]

theorem LengthForm.receive_append {n : Nat} {head : Bytes} (h : LengthForm n head) (bs : Bytes) :
    receive limit (head ++ bs) = receivePayload limit n bs := by
  cases h with
  | small hn =>
    have hnonneg : (0 : Int) ≤ n := Int.natCast_nonneg n
    rw [List.singleton_append, receive, ofByte_number hn]
    simp only [if_pos hnonneg, Int.toNat_natCast]
  | one hn => exact receive_unsigned rfl hn bs
  | two hn => exact receive_unsigned rfl hn bs
  | four hn => exact receive_unsigned rfl hn bs
  | eight hn => exact receive_unsigned rfl hn bs

theorem receivePayload_append {payload : Bytes} (h : payload.length ≤ limit) (rest : Bytes) :
    receivePayload limit payload.length (payload ++ rest) = .ofPayload payload rest := by
  rw [receivePayload, if_neg (Nat.not_lt.2 h), Bytes.split?_append]
  rfl

theorem receive_framed {f : Framed} (h : f.payload.length ≤ limit) (rest : Bytes) :
    receive limit (f.head ++ f.payload ++ rest) = .ofPayload f.payload rest := by
  rw [List.append_assoc, f.lengthForm.receive_append, receivePayload_append h]

theorem receive_too_long {n : Nat} {head : Bytes} (h : LengthForm n head) (hn : limit < n)
    (bs : Bytes) : receive limit (head ++ bs) = .malformed (.frameTooLarge n limit) bs := by
  rw [h.receive_append, receivePayload, if_pos hn]

theorem Outcome.rest?_ofPayload (payload rest : Bytes) :
    (Outcome.ofPayload payload rest).rest? = some rest := by
  unfold Outcome.ofPayload
  cases decodePayload payload <;> rfl

theorem stream_cons (f : Framed) (fs : List Framed) :
    stream (f :: fs) = f.head ++ f.payload ++ stream fs := by
  simp [stream]

/-- As many calls as there are frames give what the payloads hold and come to the tail, where the
calls after them begin. -/
theorem receiveTimes_stream {fs : List Framed} (h : ∀ f ∈ fs, f.payload.length ≤ limit)
    (n : Nat) (tail : Bytes) :
    receiveTimes limit (fs.length + n) (stream fs ++ tail) =
      outcomes tail fs ++ receiveTimes limit n tail := by
  induction fs with
  | nil => simp [stream, outcomes]
  | cons f fs ih =>
    have hcount : (f :: fs).length + n = fs.length + n + 1 := by simp; omega
    rw [hcount, receiveTimes, stream_cons, List.append_assoc,
      receive_framed (h f List.mem_cons_self), Outcome.rest?_ofPayload, Option.getD_some,
      ih fun g hg => h g (List.mem_cons_of_mem f hg), outcomes, List.cons_append]

/-- Frames that are short enough are read in their order, each as its payload alone says, and then
the stream is at its end. If a frame follows that is too long, it is refused with its length, and
the stream is left at its payload. -/
theorem receive_each_of_stream (limit : Nat) (fs : List Framed)
    (h : ∀ f ∈ fs, f.payload.length ≤ limit) :
    receiveTimes limit (fs.length + 1) (stream fs) = outcomes [] fs ++ [.incomplete] ∧
      ∀ n head bs, LengthForm n head → limit < n →
        receiveTimes limit (fs.length + 1) (stream fs ++ (head ++ bs)) =
          outcomes (head ++ bs) fs ++ [.malformed (.frameTooLarge n limit) bs] := by
  constructor
  · have hstream := receiveTimes_stream h 1 []
    rw [List.append_nil] at hstream
    exact hstream
  · intro n head bs hhead hn
    rw [receiveTimes_stream h 1, receiveTimes, receive_too_long hhead hn]
    rfl

/-- A payload that is no message does not disturb the frame behind it, nor does the form in which
its length is given. -/
theorem receive_each_of_stream_with_garbage :
    let garbage : Framed := ⟨[0xcd, 0, 1], [0xc1], .two (by decide)⟩
    let ping : Framed := ⟨[3], [0x81, 0, 0], .small (by decide)⟩
    (∀ f ∈ [garbage, ping], f.payload.length ≤ 3) ∧
      receiveTimes 3 3 (stream [garbage, ping]) =
        [.malformed (.invalidMarker 0xc1) [3, 0x81, 0, 0],
          .message ⟨⟨[(0, .int 0)], by simp⟩, .empty⟩ [], .incomplete] ∧
      receiveTimes 3 3 (stream [garbage, ping] ++ [0xcc, 200, 7]) =
        [.malformed (.invalidMarker 0xc1) [3, 0x81, 0, 0, 0xcc, 200, 7],
          .message ⟨⟨[(0, .int 0)], by simp⟩, .empty⟩ [0xcc, 200, 7],
          .malformed (.frameTooLarge 200 3) [7]] := by
  intro garbage ping
  have hshort : ∀ f ∈ [garbage, ping], f.payload.length ≤ 3 := by decide
  have hread := receive_each_of_stream 3 [garbage, ping] hshort
  refine ⟨hshort, hread.1.trans rfl, ?_⟩
  exact (hread.2 200 [0xcc, 200] [7] (.one (by decide)) (by decide)).trans rfl

def Outcome.append (more : Bytes) : Outcome → Outcome
  | .message m rest => .message m (rest ++ more)
  | .malformed e rest => .malformed e (rest ++ more)
  | .incomplete => .incomplete

theorem receivePayload_more {n : Nat} {bs : Bytes} (h : receivePayload limit n bs ≠ .incomplete)
    (more : Bytes) :
    receivePayload limit n (bs ++ more) = (receivePayload limit n bs).append more := by
  unfold receivePayload at h ⊢
  split
  · rfl
  · rename_i hlimit
    rw [if_neg hlimit] at h
    cases hsplit : Bytes.split? n bs with
    | none =>
      rw [hsplit] at h
      exact absurd rfl h
    | some split =>
      obtain ⟨payload, rest⟩ := split
      rw [Bytes.split?_more hsplit]
      simp only
      cases decodePayload payload <;> rfl

theorem receive_more {bs : Bytes} {out : Outcome} (hout : receive limit bs = out)
    (h : out ≠ .incomplete) (more : Bytes) : receive limit (bs ++ more) = out.append more := by
  subst hout
  cases bs with
  | nil => exact absurd rfl h
  | cons b bs =>
    simp only [List.cons_append, receive] at h ⊢
    cases hform : Form.ofByte b with
    | constant v =>
      cases v with
      | int n =>
        simp only [hform] at h ⊢
        split
        · rename_i hn
          rw [if_pos hn] at h
          exact receivePayload_more h more
        · rfl
      | _ => rfl
    | unsigned width =>
      simp only [hform] at h ⊢
      cases hsplit : Bytes.split? width bs with
      | none =>
        rw [hsplit] at h
        exact absurd rfl h
      | some split =>
        obtain ⟨field, rest⟩ := split
        rw [hsplit] at h
        rw [Bytes.split?_more hsplit]
        exact receivePayload_more h more
    | _ => rfl

theorem receive_message_more {bs rest : Bytes} {m : Message}
    (h : receive limit bs = .message m rest) (more : Bytes) :
    receive limit (bs ++ more) = .message m (rest ++ more) := receive_more h nofun more

theorem receive_malformed_more {bs rest : Bytes} {e : CodecError}
    (h : receive limit bs = .malformed e rest) (more : Bytes) :
    receive limit (bs ++ more) = .malformed e (rest ++ more) := receive_more h nofun more

end TupleClient.Frame
