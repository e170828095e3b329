import TupleClient.Proofs.Value.Offence
import TupleClient.Proofs.Wire.RoundTrip

/-!
What keeps a value from being written: the first of its parts that has no wire form. Nothing of such
a value stays behind in a buffer.
-/
namespace TupleClient.Wire

open Value

def refusal {α : Type} : Except CodecError α → Option CodecError
  | .ok _ => none
  | .error e => some e

theorem refusal_bind {α β : Type} {x : Except CodecError α} {f : α → Except CodecError β}
    {later : Option CodecError} (h : ∀ a, refusal (f a) = later) :
    refusal (x >>= f) = (refusal x).or later := by
  cases x with
  | error e => rfl
  | ok a => exact h a

theorem refusal_bind_ok {α β : Type} (x : Except CodecError α) (f : α → β) :
    refusal (x >>= fun a => .ok (f a)) = refusal x := by
  cases x <;> rfl

theorem refusal_longHead (what : Sized) (marker : UInt8) (n : Nat) :
    refusal (longHead what marker n) = lengthOffence? what n := by
  have hlimit : maxUnsigned32 = 2 ^ 32 - 1 := rfl
  unfold longHead lengthOffence?
  rw [hlimit]
  split <;> rfl

theorem lengthOffence?_of_lt {what : Sized} {n : Nat} (h : n < 0x10000) :
    lengthOffence? what n = none := if_pos (by omega)

/-- Whatever the shorter heads are, a length is refused by the longest one. -/
theorem refusal_head {what : Sized} {n : Nat} {head : Except CodecError Bytes} (marker : UInt8)
    (h : (n < 0x10000 ∧ refusal head = none) ∨ head = longHead what marker n) :
    refusal head = lengthOffence? what n := by
  obtain ⟨hn, hhead⟩ | rfl := h
  · rw [hhead, lengthOffence?_of_lt hn]
  · exact refusal_longHead what marker n

theorem refusal_textHead (n : Nat) : refusal (textHead n) = lengthOffence? .text n := by
  apply refusal_head 0xdb
  unfold textHead
  grind [refusal]

theorem refusal_binaryHead (n : Nat) : refusal (binaryHead n) = lengthOffence? .binary n := by
  apply refusal_head 0xc6
  unfold binaryHead
  grind [refusal]

theorem refusal_arrayHead (n : Nat) : refusal (arrayHead n) = lengthOffence? .array n := by
  apply refusal_head 0xdd
  unfold arrayHead
  grind [refusal]

theorem refusal_mapHead (n : Nat) : refusal (mapHead n) = lengthOffence? .map n := by
  apply refusal_head 0xdf
  unfold mapHead
  grind [refusal]

theorem refusal_extHead (n : Nat) : refusal (extHead n) = lengthOffence? .ext n := by
  apply refusal_head 0xc9
  unfold extHead
  grind [refusal]

theorem refusal_extBytes (subtype : Int8) (data : Bytes) :
    refusal (extBytes subtype data) = lengthOffence? .ext data.length := by
  rw [extBytes, refusal_bind_ok, refusal_extHead]

theorem refusal_intBytes (i : Int) : refusal (intBytes i) = (Value.int i).offence? := by
  unfold intBytes offence? minSigned64 maxUnsigned64
  grind [refusal]

theorem refusal_scalar {v : Value} (hv : v.IsScalar) : refusal (encode v) = v.offence? := by
  cases v with
  | array | map => cases hv
  | nil | bool | float32 | float64 => rfl
  | int i => rw [encode_int, refusal_intBytes]
  | text s => rw [encode_text, refusal_bind_ok, refusal_textHead, offence?]
  | binary bs => rw [encode_binary, refusal_bind_ok, refusal_binaryHead, offence?]
  | uuid u =>
    have hlength : u.bytes.length < 0x10000 := by
      rw [u.length_eq]
      decide
    rw [encode_uuid, refusal_extBytes, lengthOffence?_of_lt hlength]
    rfl
  | ext subtype data => rw [encode_ext, refusal_extBytes, offence?]

theorem refusal_encodeItems {items : List Value}
    (h : ∀ v ∈ items, refusal (encode v) = v.preorder.findSome? offence?) :
    refusal (encodeItems items) = (preorderItems items).findSome? offence? := by
  induction items with
  | nil => rfl
  | cons v vs ih =>
    obtain ⟨hv, hvs⟩ := List.forall_mem_cons.1 h
    have hrest : ∀ first : Bytes,
        refusal (do let others ← encodeItems vs; .ok (first ++ others)) =
          (preorderItems vs).findSome? offence? := by
      intro first
      rw [refusal_bind_ok, ih hvs]
    rw [encodeItems, refusal_bind hrest, hv, preorderItems, List.findSome?_append]

theorem refusal_encodeEntries {entries : List (Value × Value)}
    (h : ∀ e ∈ entries, refusal (encode e.1) = e.1.preorder.findSome? offence? ∧
      refusal (encode e.2) = e.2.preorder.findSome? offence?) :
    refusal (encodeEntries entries) = (preorderEntries entries).findSome? offence? := by
  induction entries with
  | nil => rfl
  | cons e es ih =>
    obtain ⟨⟨hk, hv⟩, hes⟩ := List.forall_mem_cons.1 h
    have hrest : ∀ key value : Bytes,
        refusal (do let others ← encodeEntries es; .ok (key ++ value ++ others)) =
          (preorderEntries es).findSome? offence? := by
      intro key value
      rw [refusal_bind_ok, ih hes]
    have hvalue := fun key => refusal_bind (x := encode e.2) (hrest key)
    rw [encodeEntries, refusal_bind hvalue, hk, hv, preorderEntries, List.findSome?_append,
      List.findSome?_append]

/-- The error of a value is that of the first of its parts that is an offender. -/
theorem refusal_encode (v : Value) : refusal (encode v) = v.preorder.findSome? offence? := by
  induction v using Value.induct with
  | scalar v hv =>
    rw [refusal_scalar hv, preorder_of_isScalar hv, List.findSome?_cons]
    cases v.offence? <;> rfl
  | array items ih =>
    have hbody : ∀ head : Bytes, refusal (do let body ← encodeItems items; .ok (head ++ body)) =
        (preorderItems items).findSome? offence? := by
      intro head
      rw [refusal_bind_ok, refusal_encodeItems ih]
    rw [encode_array, refusal_bind hbody, refusal_arrayHead, preorder, List.findSome?_cons,
      offence?]
    cases lengthOffence? .array items.length <;> rfl
  | map entries ih =>
    have hbody : ∀ head : Bytes,
        refusal (do let body ← encodeEntries entries; .ok (head ++ body)) =
          (preorderEntries entries).findSome? offence? := by
      intro head
      rw [refusal_bind_ok, refusal_encodeEntries ih]
    rw [encode_map, refusal_bind hbody, refusal_mapHead, preorder, List.findSome?_cons, offence?]
    cases lengthOffence? .map entries.length <;> rfl

theorem exists_encode_iff {v : Value} : (∃ bytes, encode v = .ok bytes) ↔ v.Clean := by
  rw [clean_iff, ← refusal_encode]
  cases encode v <;> simp [refusal]

theorem encode_eq_error_iff {v : Value} {e : CodecError} :
    encode v = .error e ↔ v.FirstOffence e := by
  rw [firstOffence_iff, ← refusal_encode]
  cases encode v <;> simp [refusal]

/-- Bytes are put at the end of a buffer, if there are any. Of a head that cannot be written the
`started` bytes are there already. -/
def put (out : Array UInt8) (started : Bytes) :
    Except CodecError Bytes → Array UInt8 × Except CodecError Unit
  | .ok bytes => (out ++ bytes, .ok ())
  | .error e => (out ++ started, .error e)

def andPut (step : Array UInt8 × Except CodecError Unit)
    (more : Array UInt8 → Array UInt8 × Except CodecError Unit) :
    Array UInt8 × Except CodecError Unit :=
  match step with
  | (out, .ok ()) => more out
  | failed => failed

mutual
/-- Writes a value in place, part by part. What was written before an offender is met stays in the
buffer, and so does the marker in front of a length that is too long. -/
def putValue (out : Array UInt8) : Value → Array UInt8 × Except CodecError Unit
  | .int i => put out [] (intBytes i)
  | .text s => andPut (put out [0xdb] (textHead s.utf8ByteSize)) (put · [] (.ok (Bytes.ofText s)))
  | .binary bs => andPut (put out [0xc6] (binaryHead bs.length)) (put · [] (.ok bs))
  | .array items => andPut (put out [0xdd] (arrayHead items.length)) (putItems · items)
  | .map entries => andPut (put out [0xdf] (mapHead entries.length)) (putEntries · entries)
  | .uuid u => andPut (put out [0xc9] (extHead u.bytes.length))
      (put · [] (.ok (uuidSubtype.toUInt8 :: u.bytes)))
  | .ext subtype data => andPut (put out [0xc9] (extHead data.length))
      (put · [] (.ok (subtype.toUInt8 :: data)))
  | v => put out [] (encode v)
def putItems (out : Array UInt8) : List Value → Array UInt8 × Except CodecError Unit
  | [] => (out, .ok ())
  | v :: vs => andPut (putValue out v) (putItems · vs)
def putEntries (out : Array UInt8) : List (Value × Value) → Array UInt8 × Except CodecError Unit
  | [] => (out, .ok ())
  | (k, v) :: es => andPut (andPut (putValue out k) (putValue · v)) (putEntries · es)
end

/-- What stands in the buffer afterwards begins with what stood there before, and where nothing is
refused the rest are the bytes. -/
def Puts (step : Array UInt8 → Array UInt8 × Except CodecError Unit)
    (bytes : Except CodecError Bytes) : Prop :=
  ∀ out, ∃ more : Bytes, step out = (out ++ more, bytes.map fun _ => ()) ∧
    ∀ all, bytes = .ok all → more = all

theorem puts_put (started : Bytes) (bytes : Except CodecError Bytes) :
    Puts (put · started bytes) bytes := by
  intro out
  cases bytes with
  | ok all => exact ⟨all, rfl, fun _ h => Except.ok.inj h⟩
  | error e => exact ⟨started, rfl, nofun⟩

theorem Puts.andPut {step more : Array UInt8 → Array UInt8 × Except CodecError Unit}
    {first rest : Except CodecError Bytes} (h : Puts step first) (g : Puts more rest) :
    Puts (fun out => andPut (step out) more)
      (do let a ← first; let b ← rest; .ok (a ++ b)) := by
  intro out
  obtain ⟨begun, hbegun, hfirst⟩ := h out
  cases first with
  | error e =>
    refine ⟨begun, ?_, nofun⟩
    simp only [hbegun]
    rfl
  | ok a =>
    obtain rfl : begun = a := hfirst a rfl
    obtain ⟨added, hadded, hrest⟩ := g (out ++ begun)
    refine ⟨begun ++ added, ?_, ?_⟩
    · simp only [hbegun]
      show more (out ++ begun) = _
      rw [hadded, append_append]
      cases rest <;> rfl
    · intro all hall
      obtain ⟨b, hb, hall⟩ := bind_ok (x := rest) hall
      cases hall
      rw [hrest b hb]

theorem puts_items {items : List Value} (h : ∀ v ∈ items, Puts (putValue · v) (encode v)) :
    Puts (putItems · items) (encodeItems items) := by
  induction items with
  | nil => exact puts_put [] (.ok [])
  | cons v vs ih =>
    obtain ⟨hv, hvs⟩ := List.forall_mem_cons.1 h
    exact hv.andPut (ih hvs)

theorem puts_entries {entries : List (Value × Value)}
    (h : ∀ e ∈ entries, Puts (putValue · e.1) (encode e.1) ∧ Puts (putValue · e.2) (encode e.2)) :
    Puts (putEntries · entries) (encodeEntries entries) := by
  induction entries with
  | nil => exact puts_put [] (.ok [])
  | cons e es ih =>
    obtain ⟨k, v⟩ := e
    obtain ⟨⟨hk, hv⟩, hes⟩ := List.forall_mem_cons.1 h
    have hall := (hk.andPut hv).andPut (ih hes)
    have hsame : encodeEntries ((k, v) :: es) =
        (do
          let entry ← (do let key ← encode k; let value ← encode v; .ok (key ++ value))
          let others ← encodeEntries es
          .ok (entry ++ others)) := by
      rw [encodeEntries]
      cases encode k with
      | error e => rfl
      | ok key => cases encode v <;> rfl
    rw [hsame]
    exact hall

theorem puts_sized (started : Bytes) (head : Except CodecError Bytes) (data : Bytes) :
    Puts (fun out => andPut (put out started head) (put · [] (.ok data)))
      (do let bytes ← head; .ok (bytes ++ data)) :=
  (puts_put started head).andPut (puts_put [] (.ok data))

theorem puts_value (v : Value) : Puts (putValue · v) (encode v) := by
  induction v using Value.induct with
  | scalar v hv =>
    cases v with
    | array | map => cases hv
    | nil => exact puts_put [] (encode .nil)
    | bool b => exact puts_put [] (encode (.bool b))
    | float32 bits => exact puts_put [] (encode (.float32 bits))
    | float64 bits => exact puts_put [] (encode (.float64 bits))
    | int i => exact encode_int i ▸ puts_put [] (intBytes i)
    | text s => exact encode_text s ▸ puts_sized [0xdb] (textHead _) _
    | binary bs => exact encode_binary bs ▸ puts_sized [0xc6] (binaryHead _) _
    | uuid u => exact encode_uuid u ▸ puts_sized [0xc9] (extHead _) _
    | ext subtype data => exact encode_ext subtype data ▸ puts_sized [0xc9] (extHead _) _
  | array items ih =>
    rw [encode_array]
    exact (puts_put [0xdd] (arrayHead _)).andPut (puts_items ih)
  | map entries ih =>
    rw [encode_map]
    exact (puts_put [0xdf] (mapHead _)).andPut (puts_entries ih)

/-- Writes in place, and on failure cuts the buffer back to the size it had. -/
def putOrCut (buffer : Array UInt8) (v : Value) : Array UInt8 × Except CodecError Unit :=
  match putValue buffer v with
  | (longer, .ok ()) => (longer, .ok ())
  | (longer, .error e) => (longer.take buffer.size, .error e)

theorem take_append_bytes (buffer : Array UInt8) (more : Bytes) :
    (buffer ++ more).take buffer.size = buffer := by
  apply Array.ext'
  simp

theorem append_of_encode {v : Value} {bytes : Bytes} (h : encode v = .ok bytes)
    (buffer : Array UInt8) : append buffer v = (buffer ++ bytes, .ok ()) := by
  rw [append, appends v buffer, h]
  rfl

theorem append_of_refused {v : Value} {e : CodecError} (h : encode v = .error e)
    (buffer : Array UInt8) : append buffer v = (buffer, .error e) := by
  rw [append, appends v buffer, h]
  rfl

/-- Whatever was written before an offender, cutting back leaves the buffer as it was. -/
theorem putOrCut_eq (buffer : Array UInt8) (v : Value) : putOrCut buffer v = append buffer v := by
  obtain ⟨more, hput, hall⟩ := puts_value v buffer
  simp only at hput
  rw [putOrCut, hput]
  cases hencode : encode v with
  | ok bytes =>
    rw [append_of_encode hencode, hall bytes hencode]
    rfl
  | error e =>
    rw [append_of_refused hencode]
    exact congrArg (·, Except.error e) (take_append_bytes buffer more)

/-- Values that are appended to one buffer in their order, by the writer that is given: what stands
in the buffer after each of them, and what became of it. -/
def appendEach (writer : Array UInt8 → Value → Array UInt8 × Except CodecError Unit)
    (buffer : Array UInt8) : List Value → List (Array UInt8 × Except CodecError Unit)
  | [] => []
  | v :: vs => writer buffer v :: appendEach writer (writer buffer v).1 vs

/-- Each value adds all of its bytes, or is refused for its first offender and adds none. -/
inductive AllOrNothing :
    Array UInt8 → List Value → List (Array UInt8 × Except CodecError Unit) → Prop where
  | done (buffer : Array UInt8) : AllOrNothing buffer [] []
  | all {buffer : Array UInt8} {v : Value} {vs : List Value} {bytes : Bytes}
      {later : List (Array UInt8 × Except CodecError Unit)} (hclean : v.Clean)
      (hbytes : encode v = .ok bytes) (h : AllOrNothing (buffer ++ bytes) vs later) :
      AllOrNothing buffer (v :: vs) ((buffer ++ bytes, .ok ()) :: later)
  | nothing {buffer : Array UInt8} {v : Value} {vs : List Value} {e : CodecError}
      {later : List (Array UInt8 × Except CodecError Unit)} (hfirst : v.FirstOffence e)
      (h : AllOrNothing buffer vs later) :
      AllOrNothing buffer (v :: vs) ((buffer, .error e) :: later)

/-- Values are appended to a buffer one after another, whatever stood in it. One without an offender
among its parts adds exactly its bytes; any other leaves the buffer as it was, and its error is that
of the offender that comes first, an array or a map before its parts and a key before its value.
Writing in place and cutting back comes to the same. -/
theorem appendEach_all_or_nothing (buffer : Array UInt8) (vs : List Value) :
    AllOrNothing buffer vs (appendEach append buffer vs) ∧
      appendEach putOrCut buffer vs = appendEach append buffer vs := by
  constructor
  · induction vs generalizing buffer with
    | nil => exact .done buffer
    | cons v vs ih =>
      rw [appendEach]
      cases hencode : encode v with
      | ok bytes =>
        rw [append_of_encode hencode]
        exact .all (exists_encode_iff.1 ⟨bytes, hencode⟩) hencode (ih _)
      | error e =>
        rw [append_of_refused hencode]
        exact .nothing (encode_eq_error_iff.1 hencode) (ih _)
  · have hsame : putOrCut = append := funext₂ putOrCut_eq
    rw [hsame]

/-- The key of the inner map is met before the last item, after bytes of the array were written. -/
example :
    appendEach putOrCut #[0xaa] [.int 7,
        .array [.int 1, .map [(.int (2 ^ 64), .nil)], .int (-2 ^ 63 - 1)], .nil] =
      [(#[0xaa, 7], .ok ()), (#[0xaa, 7], .error (.integerOutOfRange (2 ^ 64))),
        (#[0xaa, 7, 0xc0], .ok ())] := rfl

end TupleClient.Wire
