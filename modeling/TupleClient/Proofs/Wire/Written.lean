import TupleClient.Proofs.Value.Nesting
import TupleClient.Wire.Encoding

/-!
The bytes of a value do not depend on the buffer that they are appended to, and those of an array
or a map are its head and the bytes of its parts.
-/
namespace TupleClient.Wire

theorem encode_int (i : Int) : encode (.int i) = intBytes i := by
  simp only [encode, encodeOnto]
  cases intBytes i <;> simp [bind, Except.bind, Except.map]

theorem encode_text (s : String) :
    encode (.text s) = (do
      let head ← textHead s.utf8ByteSize
      .ok (head ++ Bytes.ofText s)) := by
  simp only [encode, encodeOnto]
  cases textHead s.utf8ByteSize <;> simp [bind, Except.bind, Except.map]

theorem encode_binary (bs : Bytes) :
    encode (.binary bs) = (do
      let head ← binaryHead bs.length
      .ok (head ++ bs)) := by
  simp only [encode, encodeOnto]
  cases binaryHead bs.length <;> simp [bind, Except.bind, Except.map]

theorem encode_uuid (u : Uuid) : encode (.uuid u) = extBytes uuidSubtype u.bytes := by
  simp only [encode, encodeOnto]
  cases extBytes uuidSubtype u.bytes <;> simp [bind, Except.bind, Except.map]

theorem encode_ext (subtype : Int8) (data : Bytes) :
    encode (.ext subtype data) = extBytes subtype data := by
  simp only [encode, encodeOnto]
  cases extBytes subtype data <;> simp [bind, Except.bind, Except.map]

def encodeItems : List Value → Except CodecError Bytes
  | [] => .ok []
  | v :: vs => do
    let first ← encode v
    let others ← encodeItems vs
    .ok (first ++ others)

def encodeEntries : List (Value × Value) → Except CodecError Bytes
  | [] => .ok []
  | (k, v) :: es => do
    let key ← encode k
    let value ← encode v
    let others ← encodeEntries es
    .ok (key ++ value ++ others)

def behind (out : Array UInt8) : Except CodecError Bytes → Except CodecError (Array UInt8)
  | .ok bytes => .ok (out ++ bytes)
  | .error e => .error e

theorem append_append (out : Array UInt8) (a b : Bytes) : out ++ a ++ b = out ++ (a ++ b) := by
  apply Array.ext'
  simp

def Appends (v : Value) : Prop := ∀ out, encodeOnto out v = behind out (encode v)

theorem appends_of_isScalar {v : Value} (h : v.IsScalar) : Appends v := by
  intro out
  cases v with
  | array | map => cases h
  | int i =>
    rw [encode_int, encodeOnto]
    cases intBytes i <;> simp [bind, Except.bind, behind]
  | text s =>
    rw [encode_text, encodeOnto]
    cases textHead s.utf8ByteSize <;> simp [bind, Except.bind, behind, append_append]
  | binary bs =>
    rw [encode_binary, encodeOnto]
    cases binaryHead bs.length <;> simp [bind, Except.bind, behind, append_append]
  | uuid u =>
    rw [encode_uuid, encodeOnto]
    cases extBytes uuidSubtype u.bytes <;> simp [bind, Except.bind, behind]
  | ext subtype data =>
    rw [encode_ext, encodeOnto]
    cases extBytes subtype data <;> simp [bind, Except.bind, behind]
  | _ => simp [encode, encodeOnto, Except.map, behind]

theorem encodeItemsOnto_eq {items : List Value} (h : ∀ v ∈ items, Appends v) (out : Array UInt8) :
    encodeItemsOnto out items = behind out (encodeItems items) := by
  induction items generalizing out with
  | nil => simp [encodeItemsOnto, encodeItems, behind]
  | cons v vs ih =>
    rw [encodeItemsOnto, encodeItems, h v List.mem_cons_self out]
    cases encode v with
    | error e => rfl
    | ok first =>
      simp only [behind, bind, Except.bind]
      rw [ih fun w hw => h w (List.mem_cons_of_mem v hw)]
      cases encodeItems vs <;> simp [behind, append_append]

theorem encodeEntriesOnto_eq {entries : List (Value × Value)}
    (h : ∀ e ∈ entries, Appends e.1 ∧ Appends e.2) (out : Array UInt8) :
    encodeEntriesOnto out entries = behind out (encodeEntries entries) := by
  induction entries generalizing out with
  | nil => simp [encodeEntriesOnto, encodeEntries, behind]
  | cons e es ih =>
    obtain ⟨k, v⟩ := e
    obtain ⟨hk, hv⟩ := h (k, v) List.mem_cons_self
    rw [encodeEntriesOnto, encodeEntries, hk out]
    cases encode k with
    | error e => rfl
    | ok key =>
      simp only [behind, bind, Except.bind]
      rw [hv]
      cases encode v with
      | error e => rfl
      | ok value =>
        simp only [behind]
        rw [ih fun x hx => h x (List.mem_cons_of_mem (k, v) hx)]
        cases encodeEntries es <;> simp [behind, append_append]

theorem encode_array_of_appends {items : List Value} (h : ∀ v ∈ items, Appends v) :
    encode (.array items) = (do
      let head ← arrayHead items.length
      let body ← encodeItems items
      .ok (head ++ body)) := by
  rw [encode, encodeOnto]
  cases arrayHead items.length with
  | error e => rfl
  | ok head =>
    simp only [bind, Except.bind]
    rw [encodeItemsOnto_eq h]
    cases encodeItems items <;> simp [Except.map, behind]

theorem encode_map_of_appends {entries : List (Value × Value)}
    (h : ∀ e ∈ entries, Appends e.1 ∧ Appends e.2) :
    encode (.map entries) = (do
      let head ← mapHead entries.length
      let body ← encodeEntries entries
      .ok (head ++ body)) := by
  rw [encode, encodeOnto]
  cases mapHead entries.length with
  | error e => rfl
  | ok head =>
    simp only [bind, Except.bind]
    rw [encodeEntriesOnto_eq h]
    cases encodeEntries entries <;> simp [Except.map, behind]

theorem appends (v : Value) : Appends v := by
  induction v using Value.induct with
  | scalar v hv => exact appends_of_isScalar hv
  | array items ih =>
    intro out
    rw [encode_array_of_appends ih, encodeOnto]
    cases arrayHead items.length with
    | error e => rfl
    | ok head =>
      simp only [bind, Except.bind]
      rw [encodeItemsOnto_eq ih]
      cases encodeItems items <;> simp [behind, append_append]
  | map entries ih =>
    intro out
    rw [encode_map_of_appends ih, encodeOnto]
    cases mapHead entries.length with
    | error e => rfl
    | ok head =>
      simp only [bind, Except.bind]
      rw [encodeEntriesOnto_eq ih]
      cases encodeEntries entries <;> simp [behind, append_append]

theorem encode_array (items : List Value) :
    encode (.array items) = (do
      let head ← arrayHead items.length
      let body ← encodeItems items
      .ok (head ++ body)) :=
  encode_array_of_appends fun v _ => appends v

theorem encode_map (entries : List (Value × Value)) :
    encode (.map entries) = (do
      let head ← mapHead entries.length
      let body ← encodeEntries entries
      .ok (head ++ body)) :=
  encode_map_of_appends fun e _ => ⟨appends e.1, appends e.2⟩

end TupleClient.Wire
