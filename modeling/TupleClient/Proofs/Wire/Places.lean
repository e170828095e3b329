import TupleClient.Proofs.Wire.Acceptance

/-!
The reader over one buffer that is never cut: every offset counts from the beginning of the buffer,
also inside the parts of a value. At each place it does what the reader does on the bytes that are
left there.
-/
namespace TupleClient.Wire

structure Place (buffer : Array UInt8) where
  position : Nat
  inside : position ≤ buffer.size

namespace Place

variable {buffer : Array UInt8}

def start : Place buffer := ⟨0, Nat.zero_le _⟩

def remaining (p : Place buffer) : Nat := buffer.size - p.position

def suffix (p : Place buffer) : Bytes := buffer.toList.drop p.position

def ensure (n : Nat) (p : Place buffer) : Except CodecError Unit :=
  if p.remaining < n then .error (.truncated n p.remaining) else .ok ()

def take (n : Nat) (p : Place buffer) : Except CodecError (Bytes × Place buffer) :=
  if h : p.remaining < n then .error (.truncated n p.remaining)
  else
    .ok ((buffer.extract p.position (p.position + n)).toList,
      ⟨p.position + n, Nat.add_le_of_le_sub' p.inside (Nat.le_of_not_lt h)⟩)

def byte (p : Place buffer) : Except CodecError (UInt8 × Place buffer) :=
  if h : p.position < buffer.size then .ok (buffer[p.position], ⟨p.position + 1, h⟩)
  else .error (.truncated 1 p.remaining)

def number (width : Nat) (p : Place buffer) : Except CodecError (Nat × Place buffer) := do
  let (field, p) ← p.take width
  .ok (field.toNat, p)

def length : Length → Place buffer → Except CodecError (Nat × Place buffer)
  | .fixed n, p => .ok (n, p)
  | .field width, p => p.number width

def sized (length : Length) (p : Place buffer) : Except CodecError (Bytes × Place buffer) := do
  let (n, p) ← p.length length
  p.take n

def text (length : Length) (p : Place buffer) : Except CodecError (Value × Place buffer) := do
  let (raw, p) ← p.sized length
  match raw.toText? with
  | some s => .ok (.text s, p)
  | none => .error .invalidText

def ext (length : Length) (p : Place buffer) : Except CodecError (Value × Place buffer) := do
  let (n, p) ← p.length length
  let (subtype, p) ← p.number 1
  let (data, p) ← p.take n
  .ok (extension (UInt8.ofNat subtype).toInt8 data, p)

def items (one : Place buffer → Except CodecError (Value × Place buffer)) :
    (n : Nat) → (read : List Value) → Place buffer → Except CodecError (List Value × Place buffer)
  | 0, read, p => .ok (read.reverse, p)
  | n + 1, read, p => do
    let (v, p) ← one p
    items one n (v :: read) p

def entries (one : Place buffer → Except CodecError (Value × Place buffer)) :
    (n : Nat) → (read : List (Value × Value)) → Place buffer →
      Except CodecError (List (Value × Value) × Place buffer)
  | 0, read, p => .ok (read.reverse, p)
  | n + 1, read, p => do
    let (k, p) ← one p
    let (v, p) ← one p
    entries one n ((k, v) :: read) p

/-- What stands behind the first byte of a value, with a reader for the parts. -/
def behind (one : Place buffer → Except CodecError (Value × Place buffer)) (b : UInt8)
    (p : Place buffer) : Except CodecError (Value × Place buffer) :=
  match Form.ofByte b with
  | .constant v => .ok (v, p)
  | .unsigned width => do
    let (field, p) ← p.take width
    .ok (.int field.toNat, p)
  | .signed width => do
    let (field, p) ← p.take width
    .ok (.int field.toInt, p)
  | .float32 => do
    let (n, p) ← p.number 4
    .ok (.float32 (UInt32.ofNat n), p)
  | .float64 => do
    let (n, p) ← p.number 8
    .ok (.float64 (UInt64.ofNat n), p)
  | .text length => p.text length
  | .binary length => do
    let (data, p) ← p.sized length
    .ok (.binary data, p)
  | .array length => do
    let (n, p) ← p.length length
    p.ensure n
    let (items, p) ← p.items one n []
    .ok (.array items, p)
  | .map length => do
    let (n, p) ← p.length length
    p.ensure (2 * n)
    let (entries, p) ← p.entries one n []
    .ok (.map entries, p)
  | .ext length => p.ext length
  | .reserved => .error (.invalidMarker b)

/-- Reads a value that may have `levels - 1` levels of arrays and maps in it. -/
def value : (levels : Nat) → Place buffer → Except CodecError (Value × Place buffer)
  | 0, _ => .error (.tooDeep maxDepth)
  | levels + 1, p => do
    let (b, p) ← p.byte
    p.behind (value levels) b

def next (p : Place buffer) : Except CodecError (Value × Place buffer) := p.value (maxDepth + 1)

theorem length_suffix (p : Place buffer) : p.suffix.length = p.remaining := by
  rw [suffix, List.length_drop, Array.length_toList, remaining]

theorem suffix_of_lt {p : Place buffer} (h : p.position < buffer.size) :
    p.suffix = buffer[p.position] :: (⟨p.position + 1, h⟩ : Place buffer).suffix := by
  rw [suffix, List.drop_eq_getElem_cons (by simpa using h)]
  rfl

theorem suffix_eq_nil_iff {p : Place buffer} : p.suffix = [] ↔ p.position = buffer.size := by
  have hinside := p.inside
  rw [← List.length_eq_zero_iff, length_suffix, remaining]
  omega

variable {α β : Type}

/-- What is read from each place is what the reader makes of the bytes that are left there, and the
place behind it leaves what the reader leaves. -/
def Agrees (atPlace : Place buffer → Except CodecError (α × Place buffer))
    (reader : Bytes → Except CodecError (α × Bytes)) : Prop :=
  ∀ p, (atPlace p).map (fun (a, q) => (a, q.suffix)) = reader p.suffix

namespace Agrees

theorem pure (a : α) :
    Agrees (fun p : Place buffer => .ok (a, p)) fun bs => .ok (a, bs) := fun _ => rfl

theorem fail (e : CodecError) :
    Agrees (fun _ : Place buffer => (.error e : Except CodecError (α × Place buffer)))
      fun _ => .error e := fun _ => rfl

theorem bind {atPlace : Place buffer → Except CodecError (α × Place buffer)}
    {reader : Bytes → Except CodecError (α × Bytes)}
    {behind : α → Place buffer → Except CodecError (β × Place buffer)}
    {more : α → Bytes → Except CodecError (β × Bytes)} (h : Agrees atPlace reader)
    (g : ∀ a, Agrees (behind a) (more a)) :
    Agrees
      (fun p => do
        let (a, p) ← atPlace p
        behind a p)
      (fun bs => do
        let (a, rest) ← reader bs
        more a rest) := by
  intro p
  have hp := h p
  cases hfirst : atPlace p with
  | error e =>
    rw [hfirst] at hp
    simp only [hfirst, ← hp]
    rfl
  | ok taken =>
    rw [hfirst] at hp
    simp only [hfirst, ← hp]
    exact g taken.1 taken.2

theorem ensure {atPlace : Place buffer → Except CodecError (α × Place buffer)}
    {reader : Bytes → Except CodecError (α × Bytes)} (h : Agrees atPlace reader) (n : Nat) :
    Agrees
      (fun p => do
        p.ensure n
        atPlace p)
      (fun bs => do
        Wire.ensure n bs
        reader bs) := by
  intro p
  have hsame : Wire.ensure n p.suffix = p.ensure n := by
    rw [Wire.ensure, Bytes.hasAtLeast_eq, length_suffix, Place.ensure]
    by_cases hn : p.remaining < n
    · rw [if_pos hn, decide_eq_false (Nat.not_le.2 hn)]
      rfl
    · rw [if_neg hn, decide_eq_true (Nat.le_of_not_lt hn)]
      rfl
  simp only [hsame]
  cases p.ensure n with
  | error e => rfl
  | ok => exact h p

theorem byte {behind : UInt8 → Place buffer → Except CodecError (α × Place buffer)}
    {reader : Bytes → Except CodecError (α × Bytes)}
    (hnil : reader [] = .error (.truncated 1 0))
    (hcons : ∀ b, Agrees (behind b) fun bs => reader (b :: bs)) :
    Agrees
      (fun p => do
        let (b, p) ← p.byte
        behind b p)
      reader := by
  intro p
  simp only [Place.byte]
  by_cases h : p.position < buffer.size
  · rw [dif_pos h, suffix_of_lt h]
    exact hcons _ _
  · have hend : p.remaining = 0 := Nat.sub_eq_zero_of_le (Nat.le_of_not_lt h)
    have hsuffix : p.suffix = [] := List.eq_nil_of_length_eq_zero (by rw [length_suffix, hend])
    rw [dif_neg h, hend, hsuffix, hnil]
    rfl

end Agrees

theorem agrees_take (n : Nat) : Agrees (take n : Place buffer → _) (Wire.take n) := by
  intro p
  rw [Place.take, Wire.take, Bytes.split?_eq, length_suffix]
  by_cases h : p.remaining < n
  · rw [dif_pos h, if_neg (Nat.not_le.2 h)]
    rfl
  · rw [dif_neg h, if_pos (Nat.le_of_not_lt h)]
    simp [Except.map, suffix]

theorem agrees_number (width : Nat) : Agrees (number width : Place buffer → _) (readNat width) :=
  (agrees_take width).bind fun field => .pure field.toNat

theorem agrees_length (l : Length) : Agrees (length l : Place buffer → _) (readLength l) := by
  cases l with
  | fixed n => exact .pure n
  | field width => exact agrees_number width

theorem agrees_sized (l : Length) : Agrees (sized l : Place buffer → _) (readSized l) :=
  (agrees_length l).bind agrees_take

theorem agrees_text (l : Length) : Agrees (text l : Place buffer → _) (readText l) := by
  have htext : ∀ raw : Bytes, Agrees
      (fun p : Place buffer =>
        match raw.toText? with
        | some s => .ok (Value.text s, p)
        | none => .error .invalidText)
      (fun rest =>
        match raw.toText? with
        | some s => .ok (Value.text s, rest)
        | none => .error .invalidText) := by
    intro raw p
    cases raw.toText? <;> rfl
  exact (agrees_sized l).bind htext

theorem agrees_ext (l : Length) : Agrees (ext l : Place buffer → _) (readExt l) :=
  (agrees_length l).bind fun n =>
    (agrees_number 1).bind fun subtype =>
      (agrees_take n).bind fun data => .pure (extension (UInt8.ofNat subtype).toInt8 data)

section Parts

variable {one : Place buffer → Except CodecError (Value × Place buffer)}
  {readOne : Bytes → Except CodecError (Value × Bytes)}

theorem agrees_items (h : Agrees one readOne) (n : Nat) (read : List Value) :
    Agrees (items one n read) (readItems readOne n read) := by
  induction n generalizing read with
  | zero => exact .pure read.reverse
  | succ n ih => exact h.bind fun v => ih (v :: read)

theorem agrees_entries (h : Agrees one readOne) (n : Nat) (read : List (Value × Value)) :
    Agrees (entries one n read) (readEntries readOne n read) := by
  induction n generalizing read with
  | zero => exact .pure read.reverse
  | succ n ih => exact h.bind fun k => h.bind fun v => ih ((k, v) :: read)

end Parts

theorem agrees_behind {levels : Nat}
    (h : Agrees (value levels : Place buffer → _) (readValue levels)) (b : UInt8) :
    Agrees (behind (value levels) b : Place buffer → _)
      fun bs => readValue (levels + 1) (b :: bs) := by
  unfold behind
  simp only [readValue]
  cases Form.ofByte b with
  | constant v => exact .pure v
  | unsigned width => exact (agrees_take width).bind fun field => .pure (Value.int field.toNat)
  | signed width => exact (agrees_take width).bind fun field => .pure (Value.int field.toInt)
  | float32 => exact (agrees_number 4).bind fun n => .pure (Value.float32 (UInt32.ofNat n))
  | float64 => exact (agrees_number 8).bind fun n => .pure (Value.float64 (UInt64.ofNat n))
  | text l => exact agrees_text l
  | binary l => exact (agrees_sized l).bind fun data => .pure (Value.binary data)
  | array l =>
    exact (agrees_length l).bind fun n =>
      ((agrees_items h n []).bind fun items => .pure (Value.array items)).ensure n
  | map l =>
    exact (agrees_length l).bind fun n =>
      ((agrees_entries h n []).bind fun entries => .pure (Value.map entries)).ensure (2 * n)
  | ext l => exact agrees_ext l
  | reserved => exact .fail (.invalidMarker b)

theorem agrees_value (levels : Nat) :
    Agrees (value levels : Place buffer → _) (readValue levels) := by
  induction levels with
  | zero => exact .fail (.tooDeep maxDepth)
  | succ levels ih => exact .byte rfl (agrees_behind ih)

theorem agrees_next : Agrees (next : Place buffer → _) read := agrees_value (maxDepth + 1)

variable {p q : Place buffer} {v : Value}

theorem read_suffix (h : p.next = .ok (v, q)) : read p.suffix = .ok (v, q.suffix) := by
  rw [← agrees_next p, h]
  rfl

theorem next_of_read {rest : Bytes} (h : read p.suffix = .ok (v, rest)) :
    ∃ q, p.next = .ok (v, q) ∧ q.suffix = rest := by
  rw [← agrees_next p] at h
  cases hnext : p.next with
  | error e =>
    rw [hnext] at h
    cases h
  | ok taken =>
    rw [hnext] at h
    cases h
    exact ⟨taken.2, rfl, rfl⟩

theorem next_eq_error_iff {e : CodecError} : p.next = .error e ↔ read p.suffix = .error e := by
  rw [← agrees_next p]
  cases p.next <;> simp [Except.map]

def between (p q : Place buffer) : Bytes := (buffer.extract p.position q.position).toList

theorem between_of_suffix {used : Bytes} (h : p.suffix = used ++ q.suffix) :
    p.position + used.length = q.position ∧ p.between q = used := by
  have hp := p.inside
  have hq := q.inside
  have hlength : p.remaining = used.length + q.remaining := by
    rw [← length_suffix, ← length_suffix, h, List.length_append]
  have hposition : p.position + used.length = q.position := by
    unfold remaining at hlength
    omega
  have hbetween : p.between q = p.suffix.take used.length := by
    rw [between, ← hposition]
    simp [suffix]
  refine ⟨hposition, ?_⟩
  rw [hbetween, h, List.take_left]

theorem next_eq_ok (h : p.next = .ok (v, q)) :
    p.suffix = p.between q ++ q.suffix ∧ p.position + (p.between q).length = q.position ∧
      0 < (p.between q).length ∧ decode (p.between q) = .ok (v, (p.between q).length) := by
  obtain ⟨used, hused, hspelling, hnesting⟩ := read_eq_ok_iff.1 (read_suffix h)
  obtain ⟨hposition, hbetween⟩ := between_of_suffix hused
  have halone : read used = .ok (v, []) :=
    read_eq_ok_iff.2 ⟨used, (List.append_nil used).symm, hspelling, hnesting⟩
  rw [hbetween]
  refine ⟨hused, hposition, hspelling.length_pos, ?_⟩
  rw [decode, halone]
  rfl

/-- A value and the place behind it are those that are found by decoding what is left, taken as an
input of its own; so is an error, with the numbers of bytes in it. -/
theorem next_eq_decode (p : Place buffer) :
    p.next.map (fun (v, q) => (v, q.position)) =
      (decode p.suffix).map fun (v, n) => (v, p.position + n) := by
  cases hnext : p.next with
  | error e =>
    rw [decode, next_eq_error_iff.1 hnext]
    rfl
  | ok taken =>
    obtain ⟨v, q⟩ := taken
    obtain ⟨hsuffix, hposition, -, -⟩ := next_eq_ok hnext
    rw [decode, read_suffix hnext, hsuffix]
    simp [bind, Except.bind, Except.map, hposition]

end Place
end TupleClient.Wire
