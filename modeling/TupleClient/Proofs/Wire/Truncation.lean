import TupleClient.Proofs.Wire.Acceptance

/-!
What bytes behind the end of the input can change. A value that was read stays, and so does every
refusal but one: that the input ended too early, with the number of bytes that were wanted there.
-/
namespace TupleClient.Wire

variable {α β : Type}

/-- More bytes behind the input are left alone by a reader that is done with what it has. One that
wants more says how much, and wants the same until all of it is there. -/
structure Steady (reader : Bytes → Except CodecError (α × Bytes)) : Prop where
  taken : ∀ {bs rest : Bytes} {a : α}, reader bs = .ok (a, rest) →
    rest.length ≤ bs.length ∧ ∀ more, reader (bs ++ more) = .ok (a, rest ++ more)
  refused : ∀ {bs : Bytes} {e : CodecError}, reader bs = .error e →
    (∀ needed available, e ≠ .truncated needed available) →
      ∀ more, reader (bs ++ more) = .error e
  wanting : ∀ {bs : Bytes} {needed available : Nat},
    reader bs = .error (.truncated needed available) →
      available < needed ∧ available ≤ bs.length ∧ ∀ more : Bytes,
        more.length < needed - available →
          reader (bs ++ more) = .error (.truncated needed (available + more.length))

theorem take_of_lt {n : Nat} {bs : Bytes} (h : bs.length < n) :
    take n bs = .error (.truncated n bs.length) := by
  rw [take, Bytes.split?_eq, if_neg (Nat.not_le.2 h)]

theorem take_eq_error {n : Nat} {bs : Bytes} {e : CodecError} (h : take n bs = .error e) :
    bs.length < n ∧ e = .truncated n bs.length := by
  rw [take, Bytes.split?_eq] at h
  by_cases hn : n ≤ bs.length
  · rw [if_pos hn] at h
    cases h
  · rw [if_neg hn] at h
    cases h
    exact ⟨Nat.not_le.1 hn, rfl⟩

theorem ensure_of_lt {n : Nat} {bs : Bytes} (h : bs.length < n) :
    ensure n bs = .error (.truncated n bs.length) := by
  rw [ensure, Bytes.hasAtLeast_eq, decide_eq_false (Nat.not_le.2 h)]
  rfl

namespace Steady

theorem pure (a : α) : Steady fun bs => .ok (a, bs) where
  taken := by
    rintro bs rest b ⟨⟩
    exact ⟨Nat.le_refl _, fun more => rfl⟩
  refused := nofun
  wanting := nofun

theorem fail {e : CodecError} (he : ∀ needed available, e ≠ .truncated needed available) :
    Steady fun _ => (.error e : Except CodecError (α × Bytes)) where
  taken := nofun
  refused := by
    rintro bs e ⟨⟩ - more
    rfl
  wanting := by
    rintro bs needed available ⟨⟩
    exact absurd rfl (he needed available)

theorem bind {reader : Bytes → Except CodecError (α × Bytes)}
    {next : α → Bytes → Except CodecError (β × Bytes)} (h : Steady reader)
    (g : ∀ a, Steady (next a)) :
    Steady fun bs => do
      let (a, rest) ← reader bs
      next a rest where
  taken := by
    intro bs last b hboth
    obtain ⟨⟨a, rest⟩, hfirst, hsecond⟩ := bind_ok hboth
    obtain ⟨hrest, hfirst⟩ := h.taken hfirst
    obtain ⟨hlast, hsecond⟩ := (g a).taken hsecond
    refine ⟨Nat.le_trans hlast hrest, fun more => ?_⟩
    simp only [hfirst, hsecond, Bind.bind, Except.bind]
  refused := by
    intro bs e hboth he more
    cases hfirst : reader bs with
    | error f =>
      simp only [hfirst, Bind.bind, Except.bind] at hboth
      cases hboth
      simp only [h.refused hfirst he, Bind.bind, Except.bind]
    | ok taken =>
      obtain ⟨a, rest⟩ := taken
      simp only [hfirst, Bind.bind, Except.bind] at hboth
      simp only [(h.taken hfirst).2, (g a).refused hboth he, Bind.bind, Except.bind]
  wanting := by
    intro bs needed available hboth
    cases hfirst : reader bs with
    | error f =>
      simp only [hfirst, Bind.bind, Except.bind] at hboth
      cases hboth
      obtain ⟨hlt, hle, hmore⟩ := h.wanting hfirst
      refine ⟨hlt, hle, fun more hlength => ?_⟩
      simp only [hmore more hlength, Bind.bind, Except.bind]
    | ok taken =>
      obtain ⟨a, rest⟩ := taken
      simp only [hfirst, Bind.bind, Except.bind] at hboth
      obtain ⟨hrest, hfirst⟩ := h.taken hfirst
      obtain ⟨hlt, hle, hmore⟩ := (g a).wanting hboth
      refine ⟨hlt, Nat.le_trans hle hrest, fun more hlength => ?_⟩
      simp only [hfirst, hmore more hlength, Bind.bind, Except.bind]

theorem ensure {reader : Bytes → Except CodecError (α × Bytes)} (h : Steady reader) (n : Nat) :
    Steady (fun bs => do
      Wire.ensure n bs
      reader bs) := by
  have hroom : ∀ {bs : Bytes}, n ≤ bs.length →
      (Wire.ensure n bs >>= fun _ => reader bs) = reader bs := by
    intro bs hn
    rw [ensure_of_le hn]
    rfl
  have hshort : ∀ {bs : Bytes}, bs.length < n →
      (Wire.ensure n bs >>= fun _ => reader bs) = .error (.truncated n bs.length) := by
    intro bs hn
    rw [ensure_of_lt hn]
    rfl
  have hmore : ∀ {bs : Bytes}, n ≤ bs.length → ∀ more : Bytes, n ≤ (bs ++ more).length := by
    intro bs hn more
    rw [List.length_append]
    omega
  constructor
  case taken =>
    intro bs rest a hread
    rcases Nat.lt_or_ge bs.length n with hn | hn
    · rw [hshort hn] at hread
      cases hread
    · rw [hroom hn] at hread
      obtain ⟨hrest, hread⟩ := h.taken hread
      exact ⟨hrest, fun more => by rw [hroom (hmore hn more), hread]⟩
  case refused =>
    intro bs e hread he more
    rcases Nat.lt_or_ge bs.length n with hn | hn
    · rw [hshort hn] at hread
      cases hread
      exact absurd rfl (he n bs.length)
    · rw [hroom hn] at hread
      rw [hroom (hmore hn more), h.refused hread he]
  case wanting =>
    intro bs needed available hread
    rcases Nat.lt_or_ge bs.length n with hn | hn
    · rw [hshort hn] at hread
      cases hread
      refine ⟨hn, Nat.le_refl _, fun more hlength => ?_⟩
      have hstill : (bs ++ more).length < n := by
        rw [List.length_append]
        omega
      rw [hshort hstill, List.length_append]
    · rw [hroom hn] at hread
      obtain ⟨hlt, hle, hwants⟩ := h.wanting hread
      exact ⟨hlt, hle, fun more hlength => by rw [hroom (hmore hn more), hwants more hlength]⟩

end Steady

theorem steady_take (n : Nat) : Steady (take n) where
  taken := by
    intro bs rest xs h
    obtain ⟨rfl, hlength⟩ := take_eq_ok h
    refine ⟨List.length_append ▸ Nat.le_add_left .., fun more => ?_⟩
    rw [List.append_assoc, take_of_length hlength]
  refused := by
    intro bs e h he
    rw [(take_eq_error h).2] at he
    exact absurd rfl (he n bs.length)
  wanting := by
    intro bs needed available h
    obtain ⟨hlt, heq⟩ := take_eq_error h
    cases heq
    refine ⟨hlt, Nat.le_refl _, fun more hlength => ?_⟩
    have hstill : (bs ++ more).length < n := by
      rw [List.length_append]
      omega
    rw [take_of_lt hstill, List.length_append]

theorem steady_readNat (width : Nat) : Steady (readNat width) :=
  (steady_take width).bind fun field => .pure field.toNat

theorem steady_readLength (length : Length) : Steady (readLength length) := by
  cases length with
  | fixed n => exact .pure n
  | field width => exact steady_readNat width

theorem steady_readSized (length : Length) : Steady (readSized length) :=
  (steady_readLength length).bind steady_take

theorem readText_eq (length : Length) :
    readText length = (fun bs => do
      let (raw, rest) ← readSized length bs
      raw.toText?.elim (.error .invalidText) fun s => .ok (.text s, rest)) := by
  funext bs
  rw [readText]
  cases readSized length bs with
  | error e => rfl
  | ok taken =>
    simp only [Bind.bind, Except.bind]
    cases taken.1.toText? <;> rfl

theorem steady_readText (length : Length) : Steady (readText length) := by
  have htext : ∀ raw : Bytes, Steady fun rest =>
      raw.toText?.elim (.error .invalidText) fun s => .ok (Value.text s, rest) := by
    intro raw
    cases raw.toText? with
    | some s => exact .pure (Value.text s)
    | none => exact .fail (by simp)
  rw [readText_eq]
  exact (steady_readSized length).bind htext

theorem steady_readExt (length : Length) : Steady (readExt length) :=
  (steady_readLength length).bind fun n =>
    (steady_readNat 1).bind fun subtype =>
      (steady_take n).bind fun data => .pure (extension (UInt8.ofNat subtype).toInt8 data)

section Parts

variable {readOne : Bytes → Except CodecError (Value × Bytes)}

theorem steady_readItems (h : Steady readOne) (n : Nat) (read : List Value) :
    Steady (readItems readOne n read) := by
  induction n generalizing read with
  | zero => exact .pure read.reverse
  | succ n ih => exact h.bind fun v => ih (v :: read)

theorem steady_readEntries (h : Steady readOne) (n : Nat) (read : List (Value × Value)) :
    Steady (readEntries readOne n read) := by
  induction n generalizing read with
  | zero => exact .pure read.reverse
  | succ n ih => exact h.bind fun k => h.bind fun v => ih ((k, v) :: read)

end Parts

/-- Without a first byte there is no verdict at all. -/
theorem Steady.cons {reader : Bytes → Except CodecError (α × Bytes)}
    (hnil : reader [] = .error (.truncated 1 0)) (hcons : ∀ b, Steady fun bs => reader (b :: bs)) :
    Steady reader where
  taken := by
    intro bs rest a h
    cases bs with
    | nil =>
      rw [hnil] at h
      cases h
    | cons b bs =>
      obtain ⟨hrest, hmore⟩ := (hcons b).taken h
      exact ⟨Nat.le_succ_of_le hrest, hmore⟩
  refused := by
    intro bs e h he
    cases bs with
    | nil =>
      rw [hnil] at h
      cases h
      exact absurd rfl (he 1 0)
    | cons b bs => exact (hcons b).refused h he
  wanting := by
    intro bs needed available h
    cases bs with
    | nil =>
      rw [hnil] at h
      cases h
      refine ⟨Nat.one_pos, Nat.le_refl 0, fun more hlength => ?_⟩
      obtain rfl := List.eq_nil_of_length_eq_zero (Nat.lt_one_iff.1 hlength)
      exact hnil
    | cons b bs =>
      obtain ⟨hlt, hle, hmore⟩ := (hcons b).wanting h
      exact ⟨hlt, Nat.le_succ_of_le hle, hmore⟩

theorem steady_readValue (levels : Nat) : Steady (readValue levels) := by
  induction levels with
  | zero => exact .fail (by simp)
  | succ levels ih =>
    refine .cons rfl fun b => ?_
    simp only [readValue]
    cases Form.ofByte b with
    | constant v => exact .pure v
    | unsigned width => exact (steady_take width).bind fun field => .pure (Value.int field.toNat)
    | signed width => exact (steady_take width).bind fun field => .pure (Value.int field.toInt)
    | float32 => exact (steady_readNat 4).bind fun n => .pure (Value.float32 (UInt32.ofNat n))
    | float64 => exact (steady_readNat 8).bind fun n => .pure (Value.float64 (UInt64.ofNat n))
    | text length => exact steady_readText length
    | binary length => exact (steady_readSized length).bind fun data => .pure (Value.binary data)
    | array length =>
      exact (steady_readLength length).bind fun n =>
        ((steady_readItems ih n []).bind fun items => .pure (Value.array items)).ensure n
    | map length =>
      exact (steady_readLength length).bind fun n =>
        ((steady_readEntries ih n []).bind fun entries => .pure (Value.map entries)).ensure (2 * n)
    | ext length => exact steady_readExt length
    | reserved => exact .fail (by simp)

theorem decode_of_read_ok {bs rest : Bytes} {v : Value} (h : read bs = .ok (v, rest)) :
    decode bs = .ok (v, bs.length - rest.length) := by
  rw [decode, h]
  rfl

theorem decode_eq_error_iff {bs : Bytes} {e : CodecError} :
    decode bs = .error e ↔ read bs = .error e := by
  rw [decode]
  cases read bs <;> simp [bind, Except.bind]

theorem decode_le_length {bs : Bytes} {v : Value} {n : Nat} (h : decode bs = .ok (v, n)) :
    n ≤ bs.length := by
  obtain ⟨⟨w, rest⟩, -, hn⟩ := bind_ok h
  cases hn
  exact Nat.sub_le ..

theorem decode_append {bs : Bytes}
    (h : ∀ needed available, decode bs ≠ .error (.truncated needed available)) (more : Bytes) :
    decode (bs ++ more) = decode bs := by
  have hsteady : Steady read := steady_readValue (maxDepth + 1)
  cases hread : read bs with
  | ok taken =>
    obtain ⟨v, rest⟩ := taken
    obtain ⟨hrest, hmore⟩ := hsteady.taken hread
    rw [decode_of_read_ok hread, decode_of_read_ok (hmore more), List.length_append,
      List.length_append, Nat.add_sub_add_right]
  | error e =>
    have hother : ∀ needed available, e ≠ .truncated needed available := by
      rintro needed available rfl
      exact h needed available (decode_eq_error_iff.2 hread)
    rw [decode_eq_error_iff.2 hread, decode_eq_error_iff.2 (hsteady.refused hread hother more)]

/-- What was read before its last byte is there is not read, and not refused for another reason. -/
theorem decode_take {bs : Bytes} {v : Value} {n k : Nat} (h : decode bs = .ok (v, n)) (hk : k < n) :
    ∃ needed available, decode (bs.take k) = .error (.truncated needed available) := by
  by_contra hother
  push Not at hother
  have hsame := decode_append hother (bs.drop k)
  rw [List.take_append_drop, h] at hsame
  have hn := decode_le_length hsame.symm
  rw [List.length_take] at hn
  omega

/-- Bytes behind the input change no verdict but one, that it ended too early. Every start of what
is read has that verdict. It says how many bytes were wanted and how many of them were there, and as
long as more of them are missing it stays, with those that have come counted in. -/
theorem decode_append_final (bs : Bytes) :
    ((∀ needed available, decode bs ≠ .error (.truncated needed available)) →
        ∀ more, decode (bs ++ more) = decode bs) ∧
      (∀ v n, decode bs = .ok (v, n) → ∀ k < n, ∃ needed available,
        decode (bs.take k) = .error (.truncated needed available)) ∧
      ∀ needed available, decode bs = .error (.truncated needed available) →
        available < needed ∧ available ≤ bs.length ∧ ∀ more : Bytes,
          more.length < needed - available →
            decode (bs ++ more) = .error (.truncated needed (available + more.length)) := by
  refine ⟨decode_append, fun v n h k hk => decode_take h hk, fun needed available h => ?_⟩
  have hsteady : Steady read := steady_readValue (maxDepth + 1)
  obtain ⟨hlt, hle, hmore⟩ := hsteady.wanting (decode_eq_error_iff.1 h)
  exact ⟨hlt, hle, fun more hlength => decode_eq_error_iff.2 (hmore more hlength)⟩

/-- An array of three that ends inside its second item. The array has asked for three bytes, which
are there; the five bytes of the binary are not. -/
theorem decode_append_final_inside_an_array :
    decode [0x93, 0x07, 0xc4, 0x05, 0xaa] = .error (.truncated 5 1) ∧
      decode ([0x93, 0x07, 0xc4, 0x05, 0xaa] ++ [0xbb, 0xcc]) = .error (.truncated 5 3) ∧
      decode ([0xc1] ++ [0x00]) = decode [0xc1] ∧
      ∃ needed available, decode ([0x92, 0xcd, 0x01, 0x2c, 0xc0].take 4) =
        .error (.truncated needed available) := by
  have hshort : decode [0x93, 0x07, 0xc4, 0x05, 0xaa] = .error (.truncated 5 1) := rfl
  have hread : decode [0x92, 0xcd, 0x01, 0x2c, 0xc0] = .ok (.array [.int 300, .nil], 5) := rfl
  have hmarker : decode [0xc1] = .error (.invalidMarker 0xc1) := rfl
  refine ⟨hshort, ?_, ?_, ?_⟩
  · exact ((decode_append_final _).2.2 5 1 hshort).2.2 [0xbb, 0xcc] (by decide)
  · refine (decode_append_final [0xc1]).1 (fun needed available h => ?_) [0x00]
    rw [hmarker] at h
    cases h
  · exact (decode_append_final _).2.1 _ 5 hread 4 (by decide)

end TupleClient.Wire
