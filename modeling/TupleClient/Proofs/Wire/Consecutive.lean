import TupleClient.Proofs.Wire.Places
import TupleClient.Proofs.Wire.Refusal

/-!
Values one after another in a buffer: reading from one place to the next comes to an end, and cuts
the buffer into the values and what is left. What was appended to a buffer value by value is read
value by value.
-/
namespace TupleClient.Wire

namespace Place

variable {buffer : Array UInt8} {p q last : Place buffer} {v : Value}
  {read : List (Value × Place buffer)}

/-- What is read from one place on, each value with the place behind it, and the last place. -/
inductive Reads : Place buffer → List (Value × Place buffer) → Place buffer → Prop where
  | done (p : Place buffer) : Reads p [] p
  | next {p q last : Place buffer} {v : Value} {read : List (Value × Place buffer)}
      (h : p.next = .ok (v, q)) (hrest : Reads q read last) : Reads p ((v, q) :: read) last

def EndsWith (p : Place buffer) : Option CodecError → Prop
  | none => p.position = buffer.size
  | some e => p.position < buffer.size ∧ p.next = .error e

def pieces (p : Place buffer) : List (Value × Place buffer) → List Bytes
  | [] => []
  | (_, q) :: read => p.between q :: pieces q read

theorem Reads.pieces (h : Reads p read last) :
    p.suffix = (p.pieces read).flatten ++ last.suffix ∧
      List.Forall₂ (fun (v, _) piece => 0 < piece.length ∧ decode piece = .ok (v, piece.length))
        read (p.pieces read) := by
  induction h with
  | done p => exact ⟨rfl, .nil⟩
  | next hnext hrest ih =>
    obtain ⟨hsuffix, -, hpos, hdecode⟩ := next_eq_ok hnext
    obtain ⟨hflatten, hpieces⟩ := ih
    refine ⟨?_, .cons ⟨hpos, hdecode⟩ hpieces⟩
    rw [Place.pieces, List.flatten_cons, List.append_assoc, ← hflatten]
    exact hsuffix

theorem remaining_of_next (h : p.next = .ok (v, q)) :
    p.position < q.position ∧ q.remaining < p.remaining := by
  obtain ⟨-, hposition, hpos, -⟩ := next_eq_ok h
  have hinside := q.inside
  unfold remaining
  omega

theorem Reads.length_le (h : Reads p read last) : p.position + read.length ≤ last.position := by
  induction h with
  | done p => exact Nat.le_refl _
  | next hnext hrest ih =>
    obtain ⟨hlt, -⟩ := remaining_of_next hnext
    rw [List.length_cons]
    omega

theorem exists_reads (p : Place buffer) :
    ∃ read last ending, Reads p read last ∧ last.EndsWith ending := by
  induction hn : p.remaining using Nat.strong_induction_on generalizing p with
  | _ n ih =>
    rcases Nat.lt_or_ge p.position buffer.size with hlt | hge
    · cases hnext : p.next with
      | error e => exact ⟨[], p, some e, .done p, hlt, hnext⟩
      | ok taken =>
        obtain ⟨v, q⟩ := taken
        obtain ⟨-, hless⟩ := remaining_of_next hnext
        obtain ⟨read, last, ending, hread, hends⟩ := ih _ (hn ▸ hless) q rfl
        exact ⟨(v, q) :: read, last, ending, .next hnext hread, hends⟩
    · exact ⟨[], p, none, .done p, Nat.le_antisymm p.inside hge⟩

/-! The cursor -/

def cursor (p : Place buffer) : Cursor := ⟨p.position, p.suffix⟩

theorem cursor_next (p : Place buffer) :
    p.cursor.next = p.next.map fun (v, q) => (v, q.cursor) := by
  rw [Cursor.next]
  cases hnext : p.next with
  | error e =>
    rw [cursor, next_eq_error_iff.1 hnext]
    rfl
  | ok taken =>
    obtain ⟨v, q⟩ := taken
    obtain ⟨hsuffix, hposition, -, -⟩ := next_eq_ok hnext
    have hlength : p.position + (p.suffix.length - q.suffix.length) = q.position := by
      rw [hsuffix, List.length_append, Nat.add_sub_cancel, hposition]
    simp only [cursor, read_suffix hnext, bind, Except.bind, hlength]
    rfl

variable {limit : Nat} {seen : List (Value × Cursor)}

theorem values_at_end (h : p.position = buffer.size) :
    p.cursor.values limit seen = (seen.reverse, none) := by
  have hrest : p.cursor.rest = [] := suffix_eq_nil_iff.2 h
  cases limit with
  | zero => rfl
  | succ limit => rw [Cursor.values, hrest, List.isEmpty_nil, if_pos rfl]

theorem values_of_lt (h : p.position < buffer.size) :
    p.cursor.values (limit + 1) seen =
      match p.next with
      | .ok (v, q) => q.cursor.values limit ((v, q.cursor) :: seen)
      | .error e => (seen.reverse, some e) := by
  have hrest : p.cursor.rest.isEmpty = false := by
    rw [cursor, suffix_of_lt h]
    rfl
  rw [Cursor.values, hrest, cursor_next, if_neg Bool.false_ne_true]
  cases p.next <;> rfl

theorem exists_limit (h : p.position < buffer.size) (hlimit : p.remaining ≤ limit) :
    ∃ fewer, limit = fewer + 1 := by
  refine Nat.exists_eq_succ_of_ne_zero (Nat.ne_of_gt (Nat.lt_of_lt_of_le ?_ hlimit))
  exact Nat.sub_pos_of_lt h

theorem values_of_reads {ending : Option CodecError} (h : Reads p read last)
    (hends : last.EndsWith ending) (hlimit : p.remaining ≤ limit) :
    p.cursor.values limit seen =
      (seen.reverse ++ read.map (fun (v, q) => (v, q.cursor)), ending) := by
  induction h generalizing limit seen with
  | done p =>
    rw [List.map_nil, List.append_nil]
    cases ending with
    | none => exact values_at_end hends
    | some e =>
      obtain ⟨hlt, herror⟩ := hends
      obtain ⟨limit, rfl⟩ := exists_limit hlt hlimit
      rw [values_of_lt hlt, herror]
  | @next p q last v read hnext hrest ih =>
    obtain ⟨hbehind, hless⟩ := remaining_of_next hnext
    have hlt : p.position < buffer.size := Nat.lt_of_lt_of_le hbehind q.inside
    obtain ⟨limit, rfl⟩ := exists_limit hlt hlimit
    have hfewer : q.remaining ≤ limit := by omega
    simp only [values_of_lt hlt, hnext, ih hends hfewer, List.reverse_cons, List.append_assoc,
      List.singleton_append, List.map_cons]

/-- What holds of reading one value after another from a buffer. At each place it is as if the rest
of the buffer were an input of its own. A value takes at least one byte, so that there is an end,
and the values and what is left are all of the buffer. -/
structure Consecutive (buffer : Array UInt8) : Prop where
  same : ∀ p : Place buffer, p.next.map (fun (v, q) => (v, q.position)) =
    (decode p.suffix).map fun (v, n) => (v, p.position + n)
  advances : ∀ (p : Place buffer) (v : Value) (n : Nat), decode p.suffix = .ok (v, n) →
    1 ≤ n ∧ p.position + n ≤ buffer.size
  cursor : ∀ p : Place buffer, p.cursor.next = p.next.map fun (v, q) => (v, q.cursor)
  ends : ∃ read last ending, Reads (start : Place buffer) read last ∧ last.EndsWith ending
  all : ∀ read last ending, Reads (start : Place buffer) read last → last.EndsWith ending →
    decodeAll buffer.toList = (read.map (fun (v, q) => (v, q.cursor)), ending)
  splits : ∀ read last, Reads (start : Place buffer) read last →
    read.length ≤ last.position ∧
      buffer.toList = (start.pieces read).flatten ++ last.suffix ∧
      List.Forall₂ (fun (v, _) piece => 0 < piece.length ∧ decode piece = .ok (v, piece.length))
        read (start.pieces read)

theorem advances {n : Nat} (h : decode p.suffix = .ok (v, n)) :
    1 ≤ n ∧ p.position + n ≤ buffer.size := by
  have hsame := next_eq_decode p
  rw [h] at hsame
  cases hnext : p.next with
  | error e =>
    rw [hnext] at hsame
    cases hsame
  | ok taken =>
    obtain ⟨w, q⟩ := taken
    rw [hnext] at hsame
    injection hsame with hpair
    injection hpair with _ hq
    obtain ⟨-, hposition, hpos, -⟩ := next_eq_ok hnext
    have hinside := q.inside
    omega

theorem consecutive (buffer : Array UInt8) : Consecutive buffer where
  same := next_eq_decode
  advances _ _ _ := advances
  cursor := cursor_next
  ends := exists_reads start
  all read last ending h hends := by
    have hstart : (start : Place buffer).cursor = Cursor.start buffer.toList := rfl
    have hlimit : (start : Place buffer).remaining ≤ buffer.toList.length :=
      Nat.le_of_eq (Array.length_toList ..).symm
    rw [decodeAll, ← hstart, values_of_reads h hends hlimit]
    rfl
  splits read last h := by
    obtain ⟨hflatten, hpieces⟩ := h.pieces
    refine ⟨?_, hflatten, hpieces⟩
    have hle := h.length_le
    exact Nat.le_trans (Nat.le_add_left ..) hle

end Place

def written (buffer : Array UInt8) (vs : List Value) : Array UInt8 :=
  vs.foldl (fun out v => (append out v).1) buffer

theorem written_eq {vs : List Value} {body : Bytes} (h : encodeItems vs = .ok body)
    (out : Array UInt8) :
    written out vs = out ++ body ∧ ∀ step ∈ appendEach append out vs, step.2 = .ok () := by
  induction vs generalizing out body with
  | nil =>
    cases h
    exact ⟨by simp [written], nofun⟩
  | cons v vs ih =>
    obtain ⟨first, others, hfirst, hothers, rfl⟩ := encodeItems_cons_ok h
    obtain ⟨hwritten, hsteps⟩ := ih hothers (out ++ first)
    rw [appendEach, append_of_encode hfirst]
    refine ⟨?_, List.forall_mem_cons.2 ⟨rfl, hsteps⟩⟩
    rw [written, List.foldl_cons, append_of_encode hfirst]
    exact hwritten.trans (append_append ..)

theorem exists_encodeItems {vs : List Value} (h : ∀ v ∈ vs, ∃ e, encode v = .ok e) :
    ∃ body, encodeItems vs = .ok body := by
  induction vs with
  | nil => exact ⟨[], rfl⟩
  | cons v vs ih =>
    obtain ⟨⟨first, hfirst⟩, hvs⟩ := List.forall_mem_cons.1 h
    obtain ⟨others, hothers⟩ := ih hvs
    refine ⟨first ++ others, ?_⟩
    rw [encodeItems, hfirst, hothers]
    rfl

/-- Where values were written, they are read one after another, and the places behind them are those
where the writer stood. -/
theorem reads_of_encodeItems {buffer : Array UInt8} {vs : List Value} {body rest : Bytes}
    (hbody : encodeItems vs = .ok body) (hnesting : ∀ v ∈ vs, v.nesting ≤ maxDepth)
    {p : Place buffer} (hp : p.suffix = body ++ rest) {out : Array UInt8}
    (hout : out.size = p.position) :
    ∃ read last, Place.Reads p read last ∧ last.suffix = rest ∧
      read.map Prod.fst = vs.map Value.canonical ∧
      read.map (fun (_, q) => q.position) =
        (appendEach append out vs).map fun (longer, _) => longer.size := by
  induction vs generalizing body p out with
  | nil =>
    cases hbody
    exact ⟨[], p, .done p, hp, rfl, rfl⟩
  | cons v vs ih =>
    obtain ⟨first, others, hfirst, hothers, rfl⟩ := encodeItems_cons_ok hbody
    obtain ⟨hv, hvs⟩ := List.forall_mem_cons.1 hnesting
    rw [List.append_assoc] at hp
    have hread : read p.suffix = .ok (v.canonical, others ++ rest) := by
      rw [hp, read, readsBack v first hfirst, if_pos (Nat.lt_succ_of_le hv)]
    obtain ⟨q, hnext, hq⟩ := Place.next_of_read hread
    obtain ⟨hposition, -⟩ := Place.between_of_suffix (q := q) (hq ▸ hp)
    have hsize : (out ++ first).size = q.position := by
      rw [← hposition, ← hout, ← Array.length_toList, Array.toList_appendList,
        List.length_append, Array.length_toList]
    obtain ⟨read, last, hreads, hlast, hvalues, hplaces⟩ := ih hothers hvs hq hsize
    refine ⟨(v.canonical, q) :: read, last, .next hnext hreads, hlast, ?_, ?_⟩
    · rw [List.map_cons, List.map_cons, hvalues]
    · rw [appendEach, append_of_encode hfirst, List.map_cons, List.map_cons, hplaces]
      exact congrArg (· :: _) hsize.symm

/-- Values that were written one after another to an empty buffer are what is read from it, each in
its canonical form and up to the place where its writer stopped; then the buffer is at its end. -/
structure ReadsWritten (vs : List Value) : Prop where
  accepted : ∀ step ∈ appendEach append #[] vs, step.2 = .ok ()
  read : ∃ read last, Place.Reads (.start : Place (written #[] vs)) read last ∧
    last.position = (written #[] vs).size ∧ read.map Prod.fst = vs.map Value.canonical ∧
    read.map (fun (_, q) => q.position) =
      (appendEach append #[] vs).map fun (longer, _) => longer.size
  all : ∃ cursors, decodeAll (written #[] vs).toList = (cursors, none) ∧
    cursors.map Prod.fst = vs.map Value.canonical

/-- From every place of every buffer a value is read as if the bytes in front of it were not there,
an error included; so reading comes to an end, with the buffer cut into values and what is left. Of
values that are written one after another, none nested too deep, nothing is left. -/
theorem reads_consecutively :
    (∀ buffer, Place.Consecutive buffer) ∧
      ∀ vs : List Value,
        (∀ v ∈ vs, (∃ e, encode v = .ok e) ∧ ∀ depth part, Value.At depth part v → depth ≤ 512) →
          ReadsWritten vs := by
  refine ⟨Place.consecutive, fun vs h => ?_⟩
  obtain ⟨body, hbody⟩ := exists_encodeItems fun v hv => (h v hv).1
  have hnesting : ∀ v ∈ vs, v.nesting ≤ maxDepth := fun v hv => Value.nesting_le_iff.2 (h v hv).2
  obtain ⟨hwritten, haccepted⟩ := written_eq hbody #[]
  have hsuffix : (Place.start : Place (written #[] vs)).suffix = body ++ [] := by
    rw [Place.suffix, hwritten]
    simp [Place.start]
  have hempty : (#[] : Array UInt8).size = (Place.start : Place (written #[] vs)).position := rfl
  obtain ⟨read, last, hreads, hlast, hvalues, hplaces⟩ :=
    reads_of_encodeItems hbody hnesting hsuffix hempty
  have hend : last.position = (written #[] vs).size := Place.suffix_eq_nil_iff.1 hlast
  refine ⟨haccepted, ⟨read, last, hreads, hend, hvalues, hplaces⟩, _,
    (Place.consecutive _).all read last none hreads hend, ?_⟩
  rw [List.map_map, ← hvalues]
  rfl

/-- Sixteen bytes under the subtype 2 come back as a UUID, between the values around them. -/
theorem reads_consecutively_around_a_uuid :
    ∃ cursors, decodeAll (written #[] [.int 300, .ext 2 (.replicate 16 7), .array [.nil]]).toList =
        (cursors, none) ∧
      cursors.map Prod.fst = [.int 300, .uuid ⟨.replicate 16 7, rfl⟩, .array [.nil]] := by
  refine (reads_consecutively.2 _ ?_).all
  simp only [List.forall_mem_cons, ← Value.nesting_le_iff]
  refine ⟨⟨⟨_, rfl⟩, by decide⟩, ⟨⟨_, rfl⟩, by decide⟩, ⟨⟨_, rfl⟩, by decide⟩, nofun⟩

end TupleClient.Wire
