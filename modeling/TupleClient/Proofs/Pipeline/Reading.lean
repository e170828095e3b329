import TupleClient.Proofs.Frame.Stream
import TupleClient.Proofs.Pipeline.Accounts
import TupleClient.Proofs.Pipeline.Replies

/-!
All that a server says before it closes its side. In whatever pieces the bytes come, the frames at
their start are taken, and the first item that cannot be taken ends the connection.
-/
namespace TupleClient.Pipeline

variable {κ : Type} {p q : Pipeline κ} {s : Socket} {r : Report κ} {limit : Nat}
  {bs rest : Bytes} {ids : List Nat} {m : Message} {ms : List Message} {e : ClientError}

/-- The frames that can be taken off a stream while the numbers of `ids` wait for their replies, and
the error that the first other item is. -/
inductive Course (limit : Nat) : List Nat → Bytes → List Message → ClientError → Prop where
  | ended {ids : List Nat} {bs : Bytes} (h : Frame.receive limit bs = .incomplete) :
    Course limit ids bs [] .endOfInput
  | malformed {ids : List Nat} {bs rest : Bytes} {e : Wire.CodecError}
    (h : Frame.receive limit bs = .malformed e rest) :
    Course limit ids bs [] (.connection (.violation e.message))
  | anonymous {ids : List Nat} {bs rest : Bytes} {m : Message}
    (h : Frame.receive limit bs = .message m rest) (hsync : m.sync? = none) :
    Course limit ids bs [] (.connection (.violation "response without sync id"))
  | statusless {ids : List Nat} {bs rest : Bytes} {m : Message} {id : Nat}
    (h : Frame.receive limit bs = .message m rest) (hsync : m.sync? = some id) (hid : id ∈ ids)
    (hcode : m.code? = none) :
    Course limit ids bs [] (.connection (.violation "response without status code"))
  | reply {ids : List Nat} {bs rest : Bytes} {m : Message} {id : Nat} {ms : List Message}
    {e : ClientError} (h : Frame.receive limit bs = .message m rest) (hsync : m.sync? = some id)
    (hid : id ∈ ids) (hcode : m.code?.isSome)
    (hrest : Course limit (ids.filter (· != id)) rest ms e) : Course limit ids bs (m :: ms) e
  | stray {ids : List Nat} {bs rest : Bytes} {m : Message} {id : Nat} {ms : List Message}
    {e : ClientError} (h : Frame.receive limit bs = .message m rest) (hsync : m.sync? = some id)
    (hid : id ∉ ids) (hrest : Course limit ids rest ms e) : Course limit ids bs (m :: ms) e

/-- What an operation is told: what the first frame under its number says, or else the error. -/
def told (ms : List Message) (e : ClientError) (x : Nat × Operation κ) : Outcome :=
  match ms.find? fun m => m.sync? == some x.1 with
  | some m => replyTo x.1 x.2 m
  | none => .error e

/-- The connection of `p` ended with the error, once, after the frames were taken. -/
structure BrokenOff (p : Pipeline κ) (ms : List Message) (e : ClientError) (q : Pipeline κ)
    (r : Report κ) : Prop where
  outcomes : r.outcomes.Perm (p.pending.map fun x => (x.2.tag, told ms e x))
  states : r.states = [.reconnecting]
  hungUp : r.hungUp = true
  cell : q.cell = p.cell.enter .reconnecting (some e)
  pending : q.pending = []
  socket : q.socket = none

/-- There is a connection, and its reader waits for the server. -/
structure Live (p : Pipeline κ) (s : Socket) : Prop where
  reading : p.isReading = true
  socket : p.socket = some s
  generation : p.cell.generation = s.generation
  ended : s.ended = false
  numbered : p.Numbered

/-- The server says something, piece by piece, and closes its side. -/
def heard (pieces : List Bytes) : List (Event κ) :=
  pieces.map (fun bs => .signal (.received bs)) ++ [.signal .hungUp]

theorem Course.exists (limit : Nat) (ids : List Nat) (bs : Bytes) :
    ∃ ms e, Course limit ids bs ms e := by
  cases h : Frame.receive limit bs with
  | incomplete => exact ⟨_, _, .ended h⟩
  | malformed e rest => exact ⟨_, _, .malformed h⟩
  | message m rest =>
    cases hsync : m.sync? with
    | none => exact ⟨_, _, .anonymous h hsync⟩
    | some id =>
      by_cases hid : id ∈ ids
      · cases hcode : m.code? with
        | none => exact ⟨_, _, .statusless h hsync hid hcode⟩
        | some code =>
          obtain ⟨ms, e, hrest⟩ := Course.exists limit (ids.filter (· != id)) rest
          exact ⟨_, _, .reply h hsync hid (by rw [hcode]; rfl) hrest⟩
      · obtain ⟨ms, e, hrest⟩ := Course.exists limit ids rest
        exact ⟨_, _, .stray h hsync hid hrest⟩
termination_by bs.length
decreasing_by all_goals exact Frame.length_receive (by rw [h]; rfl)

theorem Course.unique {ns : List Message} {f : ClientError} (hms : Course limit ids bs ms e)
    (hns : Course limit ids bs ns f) : ns = ms ∧ f = e := by
  induction hms generalizing ns f with
  | reply h hsync hid hcode hrest ih =>
    cases hns with
    | reply h' hsync' _ _ hrest' =>
      obtain ⟨rfl, rfl⟩ := Frame.Outcome.message.inj (h.symm.trans h')
      obtain rfl := Option.some.inj (hsync.symm.trans hsync')
      obtain ⟨rfl, rfl⟩ := ih hrest'
      exact ⟨rfl, rfl⟩
    | _ => simp_all
  | stray h hsync hid hrest ih =>
    cases hns with
    | stray h' _ _ hrest' =>
      obtain ⟨rfl, rfl⟩ := Frame.Outcome.message.inj (h.symm.trans h')
      obtain ⟨rfl, rfl⟩ := ih hrest'
      exact ⟨rfl, rfl⟩
    | _ => simp_all
  | _ => cases hns <;> simp_all

theorem Live.dispatch (h : p.Live s) (m : Message) : (p.dispatch m).1.Live s where
  reading := by
    rw [isReading, cell_dispatch]
    exact h.reading
  socket := by rw [socket_dispatch, h.socket]
  generation := by rw [cell_dispatch, h.generation]
  ended := h.ended
  numbered := (settles_dispatch h.numbered m).numbered h.numbered

theorem Live.cell_fail (h : p.Live s) (e : ClientError) :
    p.cell.fail s.generation e = (p.cell.enter .reconnecting (some e), true) := by
  have hreading := h.reading
  rw [isReading, Bool.or_eq_true, beq_iff_eq, beq_iff_eq] at hreading
  rcases hreading with hstate | hstate <;>
    simp [Lifecycle.Cell.fail, h.generation, hstate, Lifecycle.State.canBecome]

theorem readFrames_incomplete {generation : Nat}
    (h : Frame.receive p.settings.maxFrame bs = .incomplete) :
    p.readFrames generation true bs =
      ((p.fail generation .endOfInput).1, (p.fail generation .endOfInput).2.1) := by
  rw [readFrames]
  split
  · rfl
  · simp_all
  · simp_all

theorem readFrames_malformed {generation : Nat} {ended : Bool} {e : Wire.CodecError}
    (h : Frame.receive p.settings.maxFrame bs = .malformed e rest) :
    p.readFrames generation ended bs =
      ((p.fail generation (.connection (.violation e.message))).1,
        (p.fail generation (.connection (.violation e.message))).2.1) := by
  rw [readFrames]
  split
  · simp_all
  · simp_all
  · simp_all

theorem readFrames_message {generation : Nat} {ended : Bool}
    (h : Frame.receive p.settings.maxFrame bs = .message m rest) :
    p.readFrames generation ended bs =
      match p.dispatch m with
      | (next, report, none) =>
        ((next.readFrames generation ended rest).1,
          report.andThen (next.readFrames generation ended rest).2)
      | (next, report, some e) =>
        ((next.fail generation (.connection e)).1,
          report.andThen (next.fail generation (.connection e)).2.1) := by
  rw [readFrames]
  split
  · simp_all
  · simp_all
  · rename_i hreceive
    obtain ⟨rfl, rfl⟩ := Frame.Outcome.message.inj (h.symm.trans hreceive)
    rfl

theorem Live.brokenOff (h : p.Live s) (e : ClientError) :
    BrokenOff p [] e (p.fail s.generation e).1 (p.fail s.generation e).2.1 := by
  rw [fail, h.cell_fail]
  exact
    { outcomes := by simp [Report.outcomes, Report.andThen, Report.entered, teardown, told]
      states := by simp [Report.states, Report.andThen, Report.entered, teardown]
      hungUp := by simp [Report.andThen, teardown, h.socket]
      cell := rfl
      pending := rfl
      socket := rfl }

theorem told_cons_of_ne {x : Nat × Operation κ} (h : m.sync? ≠ some x.1) :
    told (m :: ms) e x = told ms e x := by
  rw [told, List.find?_cons_of_neg (by simpa using h), told]

theorem told_cons_self {id : Nat} {op : Operation κ} (h : m.sync? = some id) :
    told (m :: ms) e (id, op) = replyTo id op m := by
  rw [told, List.find?_cons_of_pos (by simp [h])]

theorem BrokenOff.withdrawn {id : Nat} {op : Operation κ} {outcome : Outcome}
    {ns : List Message} (hp : p.Numbered) (hop : p.operation? id = some op)
    (h : BrokenOff ((p.notice m).withdraw id op) ms e q r) (hself : told ns e (id, op) = outcome)
    (hothers : ∀ x : Nat × Operation κ, x.1 ≠ id → told ns e x = told ms e x) :
    BrokenOff p ns e q ((Report.ended op.tag outcome).andThen r) where
  outcomes := by
    have hrest : r.outcomes.Perm
        ((p.pending.filter (·.1 != id)).map fun x => (x.2.tag, told ns e x)) := by
      refine h.outcomes.trans (.of_eq (List.map_congr_left fun x hx => ?_))
      rw [hothers x (by simpa using (List.mem_filter.1 hx).2)]
    have hall := (filter_ne_perm hp.sorted_pending hop).map fun x => (x.2.tag, told ns e x)
    rw [List.map_cons, hself] at hall
    rw [Report.outcomes_andThen]
    exact (hrest.cons _).trans hall
  states := by
    rw [Report.states_andThen, h.states]
    rfl
  hungUp := by
    rw [Report.andThen, h.hungUp, Bool.or_true]
  cell := h.cell
  pending := h.pending
  socket := h.socket

theorem BrokenOff.of_notice (h : BrokenOff (p.notice m) ms e q r) : BrokenOff p ms e q r :=
  { h with }

theorem BrokenOff.stray {id : Nat} (hsync : m.sync? = some id)
    (hid : id ∉ p.pending.map Prod.fst) (h : BrokenOff p ms e q r) :
    BrokenOff p (m :: ms) e q r := by
  have hsame : (p.pending.map fun x => (x.2.tag, told ms e x)) =
      p.pending.map fun x => (x.2.tag, told (m :: ms) e x) := by
    refine List.map_congr_left fun x hx => ?_
    have hne : m.sync? ≠ some x.1 := by
      intro heq
      obtain rfl := Option.some.inj (hsync.symm.trans heq)
      exact hid (List.mem_map_of_mem hx)
    rw [told_cons_of_ne hne]
  exact { h with outcomes := hsame ▸ h.outcomes }

theorem exists_operation {id : Nat} (h : id ∈ p.pending.map Prod.fst) :
    ∃ op, p.operation? id = some op := by
  rw [← Option.isSome_iff_exists, operation?, List.lookup_isSome_iff]
  obtain ⟨x, hx, rfl⟩ := List.mem_map.1 h
  exact ⟨x, hx, by simp⟩

theorem operation?_eq_none {id : Nat} (h : id ∉ p.pending.map Prod.fst) :
    p.operation? id = none := by
  rw [operation?, List.lookup_eq_none_iff]
  intro x hx
  have hne : id ≠ x.1 := fun heq => h (heq ▸ List.mem_map_of_mem hx)
  simpa using hne

theorem numbers_withdraw (p : Pipeline κ) (id : Nat) (op : Operation κ) :
    (p.withdraw id op).pending.map Prod.fst = (p.pending.map Prod.fst).filter (· != id) := by
  rw [withdraw, List.filter_map]
  rfl

/-- A stream that is there in full is read to where it cannot be taken further. -/
theorem readFrames_of_course (h : Course p.settings.maxFrame (p.pending.map Prod.fst) bs ms e)
    (hlive : p.Live s) :
    BrokenOff p ms e (p.readFrames s.generation true bs).1
      (p.readFrames s.generation true bs).2 := by
  generalize hlimit : p.settings.maxFrame = limit at h
  generalize hids : p.pending.map Prod.fst = ids at h
  induction h generalizing p with
  | ended h =>
    rw [readFrames_incomplete (hlimit ▸ h)]
    exact hlive.brokenOff _
  | malformed h =>
    rw [readFrames_malformed (hlimit ▸ h)]
    exact hlive.brokenOff _
  | @anonymous ids bs rest m h hsync =>
    have hnext := hlive.dispatch m
    rw [dispatch_without_sync hsync] at hnext
    rw [readFrames_message (hlimit ▸ h), dispatch_without_sync hsync]
    simp only [Report.silent_andThen]
    exact (hnext.brokenOff _).of_notice
  | @statusless ids bs rest m id h hsync hid hcode =>
    subst hids
    obtain ⟨op, hop⟩ := exists_operation hid
    have hnext := hlive.dispatch m
    rw [dispatch_without_code hsync hop hcode] at hnext
    rw [readFrames_message (hlimit ▸ h), dispatch_without_code hsync hop hcode]
    exact (hnext.brokenOff _).withdrawn hlive.numbered hop rfl fun x _ => rfl
  | @reply ids bs rest m id ms e h hsync hid hcode hrest ih =>
    subst hids
    obtain ⟨op, hop⟩ := exists_operation hid
    have hnext := hlive.dispatch m
    rw [dispatch_reply hsync hop hcode] at hnext
    have hbroken := ih hnext hlimit (numbers_withdraw ..)
    rw [readFrames_message (hlimit ▸ h), dispatch_reply hsync hop hcode]
    refine hbroken.withdrawn hlive.numbered hop (told_cons_self hsync) fun x hx => ?_
    have hne : m.sync? ≠ some x.1 := fun heq => hx (Option.some.inj (heq.symm.trans hsync))
    exact told_cons_of_ne hne
  | @stray ids bs rest m id ms e h hsync hid hrest ih =>
    subst hids
    have hop := operation?_eq_none hid
    have hnext := hlive.dispatch m
    rw [dispatch_unknown hsync hop] at hnext
    have hbroken := ih hnext hlimit rfl
    rw [readFrames_message (hlimit ▸ h), dispatch_unknown hsync hop]
    simp only [Report.silent_andThen]
    exact hbroken.of_notice.stray hsync hid

theorem readFrames_more (h : Course p.settings.maxFrame (p.pending.map Prod.fst) bs ms e)
    (he : e ≠ .endOfInput) (generation : Nat) (more : Bytes) :
    p.readFrames generation true (bs ++ more) = p.readFrames generation true bs := by
  generalize hlimit : p.settings.maxFrame = limit at h
  generalize hids : p.pending.map Prod.fst = ids at h
  induction h generalizing p with
  | ended h => exact absurd rfl he
  | malformed h =>
    subst hlimit
    rw [readFrames_malformed h, readFrames_malformed (Frame.receive_malformed_more h more)]
  | anonymous h hsync =>
    subst hlimit
    rw [readFrames_message h, readFrames_message (Frame.receive_message_more h more),
      dispatch_without_sync hsync]
  | statusless h hsync hid hcode =>
    subst hlimit hids
    obtain ⟨op, hop⟩ := exists_operation hid
    rw [readFrames_message h, readFrames_message (Frame.receive_message_more h more),
      dispatch_without_code hsync hop hcode]
  | @reply _ _ _ m id _ _ h hsync hid hcode hrest ih =>
    subst hlimit hids
    obtain ⟨op, hop⟩ := exists_operation hid
    have hrest := ih (p := (p.notice m).withdraw id op) he rfl (numbers_withdraw ..)
    rw [readFrames_message h, readFrames_message (Frame.receive_message_more h more),
      dispatch_reply hsync hop hcode]
    simp only [hrest]
  | @stray _ _ _ m _ _ _ h hsync hid hrest ih =>
    subst hlimit hids
    have hrest := ih (p := p.notice m) he rfl rfl
    rw [readFrames_message h, readFrames_message (Frame.receive_message_more h more),
      dispatch_unknown hsync (operation?_eq_none hid)]
    simp only [hrest]

def onSocket (p : Pipeline κ) (s : Socket) : Pipeline κ := { p with socket := some s }

theorem dispatch_onSocket (p : Pipeline κ) (s : Socket) (m : Message) :
    (p.onSocket s).dispatch m = ((p.dispatch m).1.onSocket s, (p.dispatch m).2) := by
  have hnotice : (p.onSocket s).notice m = (p.notice m).onSocket s := rfl
  rw [dispatch_eq, dispatch_eq, hnotice]
  cases m.sync? with
  | none => rfl
  | some id =>
    have hoperation : ((p.notice m).onSocket s).operation? id = (p.notice m).operation? id := rfl
    simp only [hoperation]
    cases (p.notice m).operation? id with
    | none => rfl
    | some op =>
      simp only
      split <;> rfl

theorem Live.onSocket (h : p.Live s) {t : Socket} (hgeneration : t.generation = s.generation)
    (hended : t.ended = false) : (p.onSocket t).Live t where
  reading := h.reading
  socket := rfl
  generation := h.generation.trans hgeneration.symm
  ended := hended
  numbered := { h.numbered with }

theorem fail_onSocket (h : p.Live s) (t : Socket) (e : ClientError) :
    (p.onSocket t).fail s.generation e = p.fail s.generation e := by
  have hcell : (p.onSocket t).cell = p.cell := rfl
  rw [fail, fail, hcell, h.cell_fail]
  simp [teardown, onSocket, h.socket]

theorem readFrames_onSocket (hlive : p.Live s) (t : Socket) (bs : Bytes) :
    (p.onSocket t).readFrames s.generation true bs = p.readFrames s.generation true bs := by
  fun_induction readFrames p s.generation true bs with
  | case1 p bs h _ failed report _ hfail =>
    rw [readFrames_incomplete (p := p.onSocket t) h, fail_onSocket hlive, hfail]
  | case2 p bs h hended => exact absurd rfl hended
  | case3 p bs e rest h failed report _ hfail =>
    rw [readFrames_malformed (p := p.onSocket t) h, fail_onSocket hlive, hfail]
  | case4 p bs m rest h next report hdispatch done more hmore ih =>
    have hnext := hlive.dispatch m
    rw [hdispatch] at hnext
    rw [readFrames_message (p := p.onSocket t) h, dispatch_onSocket, hdispatch]
    simp only [ih hnext, hmore]
  | case5 p bs m rest h next report e hdispatch failed last _ hfail =>
    have hnext := hlive.dispatch m
    rw [hdispatch] at hnext
    rw [readFrames_message (p := p.onSocket t) h, dispatch_onSocket, hdispatch]
    simp only [fail_onSocket hnext, hfail]

/-- So far as the stream is there it is read. What comes later is read behind it, unless the
connection has ended. -/
theorem readFrames_append (hlive : p.Live s) (bs : Bytes) :
    let q := (p.readFrames s.generation false bs).1
    let r := (p.readFrames s.generation false bs).2
    (q.socket = none ∧ ∀ more, p.readFrames s.generation true (bs ++ more) = (q, r)) ∨
    ∃ rest, q.Live (s.keeping rest) ∧ ∀ more, p.readFrames s.generation true (bs ++ more) =
      ((q.readFrames s.generation true (rest ++ more)).1,
        r.andThen (q.readFrames s.generation true (rest ++ more)).2) := by
  fun_induction readFrames p s.generation false bs with
  | case1 p bs h hended => cases hended
  | case2 p bs h hended =>
    have hkept : { p with socket := p.socket.map (·.keeping bs) } = p.onSocket (s.keeping bs) := by
      rw [hlive.socket]
      rfl
    rw [hkept]
    refine .inr ⟨bs, hlive.onSocket rfl hlive.ended, fun more => ?_⟩
    rw [readFrames_onSocket hlive, Report.silent_andThen]
  | case3 p bs e rest h failed report _ hfail =>
    have hbroken := hlive.brokenOff (.connection (.violation e.message))
    rw [hfail] at hbroken
    refine .inl ⟨hbroken.socket, fun more => ?_⟩
    rw [readFrames_malformed (Frame.receive_malformed_more h more), hfail]
  | case4 p bs m rest h next report hdispatch done more hmore ih =>
    have hnext := hlive.dispatch m
    rw [hdispatch] at hnext
    have hfirst (later : Bytes) : p.readFrames s.generation true (bs ++ later) =
        ((next.readFrames s.generation true (rest ++ later)).1,
          report.andThen (next.readFrames s.generation true (rest ++ later)).2) := by
      rw [readFrames_message (Frame.receive_message_more h later), hdispatch]
    have hread := ih hnext
    rw [hmore] at hread
    rcases hread with ⟨hsocket, hread⟩ | ⟨left, hlive, hread⟩
    · refine .inl ⟨hsocket, fun later => ?_⟩
      rw [hfirst, hread]
    · refine .inr ⟨left, hlive, fun later => ?_⟩
      rw [hfirst, hread, Report.andThen_assoc]
  | case5 p bs m rest h next report e hdispatch failed last _ hfail =>
    have hnext := hlive.dispatch m
    rw [hdispatch] at hnext
    have hbroken := hnext.brokenOff (.connection e)
    rw [hfail] at hbroken
    refine .inl ⟨hbroken.socket, fun more => ?_⟩
    rw [readFrames_message (Frame.receive_message_more h more), hdispatch]
    simp only [hfail]

theorem heard_cons (bs : Bytes) (pieces : List Bytes) :
    (heard (bs :: pieces) : List (Event κ)) = .signal (.received bs) :: heard pieces := rfl

theorem run_heard_of_no_socket (h : p.socket = none) (pieces : List Bytes) :
    p.run (heard pieces) = (p, .silent) := by
  have hsilent (f : Socket → Socket) :
      readOn { p with socket := p.socket.map f } = (p, .silent) := by
    have hsame : { p with socket := p.socket.map f } = p := by
      cases p
      cases h
      rfl
    rw [hsame, readOn, h]
  induction pieces with
  | nil =>
    rw [heard, List.map_nil, List.nil_append, run, step, signal, hangUp, hsilent]
    rfl
  | cons bs pieces ih =>
    rw [heard_cons, run, step, signal, receive, hsilent]
    simp only [ih]
    rfl

theorem Live.readOn (h : p.Live s) (f : Socket → Socket) :
    readOn { p with socket := p.socket.map f } =
      (p.onSocket (f s)).readFrames (f s).generation (f s).ended (f s).input := by
  have hreading : (p.onSocket (f s)).isReading = true := h.reading
  have hover : { p with socket := p.socket.map f } = p.onSocket (f s) := by
    rw [h.socket]
    rfl
  have hsocket : (p.onSocket (f s)).socket = some (f s) := rfl
  rw [hover, Pipeline.readOn, hsocket]
  simp only [hreading, if_true]

/-- In whatever pieces a stream comes, it is read as if it came in one. -/
theorem run_heard (h : p.Live s) (pieces : List Bytes) :
    p.run (heard pieces) = p.readFrames s.generation true (s.input ++ pieces.flatten) := by
  induction pieces generalizing p s with
  | nil =>
    rw [heard, List.map_nil, List.nil_append, run, step, signal, hangUp, h.readOn,
      List.flatten_nil, List.append_nil]
    simp only [run, Report.andThen_silent]
    exact readFrames_onSocket h s.atEnd s.input
  | cons bs pieces ih =>
    have hlive : (p.onSocket (s.append bs)).Live (s.append bs) := h.onSocket rfl h.ended
    have hwhole := readFrames_onSocket h (s.append bs) ((s.append bs).input ++ pieces.flatten)
    have hmore := readFrames_append hlive (s.append bs).input
    rw [heard_cons, run, step, signal, receive, h.readOn, hlive.ended, List.flatten_cons,
      ← List.append_assoc]
    rcases hmore with ⟨hsocket, hmore⟩ | ⟨rest, hnext, hmore⟩
    · simp only [run_heard_of_no_socket hsocket pieces, Report.andThen_silent]
      exact (hmore pieces.flatten).symm.trans hwhole
    · simp only [ih hnext]
      exact (hmore pieces.flatten).symm.trans hwhole

/-- Whatever the server of a live connection says before it closes its side, each operation whose
number is on a frame that can be taken is told what the first such frame says. The first other item
ends the connection, once, with one error that all the others are told. What comes behind it, in the
same piece or later, changes nothing. -/
theorem broken_off_by_any_stream (h : p.Live s) (pieces : List Bytes) :
    ∃ ms e,
      (∀ ns f,
        Course p.settings.maxFrame (p.pending.map Prod.fst) (s.input ++ pieces.flatten) ns f ↔
          ns = ms ∧ f = e) ∧
      let (q, r) := p.run (heard pieces)
      BrokenOff p ms e q r ∧
        (e ≠ .endOfInput → ∀ others more, others.flatten = pieces.flatten ++ more →
          p.run (heard others) = (q, r)) ∧
        ∀ later, q.run (heard later) = (q, .silent) := by
  obtain ⟨ms, e, hcourse⟩ :=
    Course.exists p.settings.maxFrame (p.pending.map Prod.fst) (s.input ++ pieces.flatten)
  have hbroken := readFrames_of_course hcourse h
  rw [← run_heard h] at hbroken
  refine ⟨ms, e, fun ns f => ⟨hcourse.unique, ?_⟩, hbroken, fun he others more hothers => ?_, ?_⟩
  · rintro ⟨rfl, rfl⟩
    exact hcourse
  · have hmore := readFrames_more hcourse he s.generation more
    rw [List.append_assoc, ← hothers] at hmore
    rw [run_heard h, run_heard h, hmore]
  · exact run_heard_of_no_socket hbroken.socket

def listening : Pipeline Nat :=
  { (create ⟨none, 1000, 1024, Settings.half, 1024⟩ : Pipeline Nat) with
    cell := ⟨.alive, 1, none, []⟩
    nextSync := 4
    pending := [(1, ⟨.ping, none, 0, 7⟩), (2, ⟨.ping, none, 0, 8⟩), (3, ⟨.ping, none, 0, 9⟩)]
    socket := some ⟨1, "a:1", [], false⟩ }

/-- A reply to the second operation in two pieces, then one without a status to the first, then a
byte that is read no more. -/
theorem broken_off_by_any_stream_without_status :
    let e : ClientError := .connection (.violation "response without status code")
    let pieces : List Bytes := [[5, 0x82, 0, 0], [1, 2, 3, 0x81, 1, 1, 0xc1]]
    listening.Live ⟨1, "a:1", [], false⟩ ∧
      (listening.run (heard pieces)).2.outcomes.Perm
        [(7, .error e), (8, .ok ⟨2, none, some .ping, .empty⟩), (9, .error e)] ∧
      (listening.run (heard pieces)).1.state = .reconnecting := by
  intro e pieces
  have hlive : listening.Live ⟨1, "a:1", [], false⟩ :=
    ⟨rfl, rfl, rfl, rfl, ⟨by decide, by decide⟩⟩
  obtain ⟨ms, f, hcourse, hbroken, -⟩ := broken_off_by_any_stream hlive pieces
  have hstatusless : Course 1024 [1, 3] [3, 0x81, 1, 1, 0xc1] [] e :=
    .statusless (m := ⟨⟨[(1, .int 1)], by simp⟩, .empty⟩) rfl rfl (by decide) rfl
  have hreply : Course 1024 [1, 2, 3] pieces.flatten
      [⟨⟨[(0, .int 0), (1, .int 2)], by simp⟩, .empty⟩] e :=
    .reply rfl rfl (by decide) rfl hstatusless
  obtain ⟨rfl, rfl⟩ := (hcourse _ _).1 hreply
  exact ⟨hlive, hbroken.outcomes.trans (.of_eq rfl), congrArg Lifecycle.Cell.state hbroken.cell⟩

end TupleClient.Pipeline
