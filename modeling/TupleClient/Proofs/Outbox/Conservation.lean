import TupleClient.Outbox

/-!
What becomes of the frames that come to an outbox. While it is open they go out in batches of whole
frames, in order, and the others wait, never more of them than there is room for. Closing the outbox
drops those that wait and nothing else.
-/
namespace TupleClient.Outbox

inductive Act where
  | opened
  | push (frame : Bytes)
  | take
  | closed

def Act.IsTransfer : Act → Prop
  | .push _ => True
  | .take => True
  | _ => False

/-- What came of it. A batch is empty where the writer has to wait for one, and there is none once
the outbox is closed. -/
inductive Mark where
  | opened
  | accepted (frame : Bytes)
  | refused (frame : Bytes) (e : ClientError)
  | taken (batch : Option Bytes)
  | closed

def accepted (marks : List Mark) : List Bytes :=
  marks.filterMap fun m =>
    match m with
    | .accepted frame => some frame
    | _ => none

def batches (marks : List Mark) : List Bytes :=
  marks.filterMap fun m =>
    match m with
    | .taken batch => batch
    | _ => none

def act (o : Outbox) : Act → Outbox × Mark
  | .opened => (o.opened, .opened)
  | .push frame =>
    match o.push frame with
    | .ok next => (next, .accepted frame)
    | .error e => (o, .refused frame e)
  | .take => (o.take.1, .taken o.take.2)
  | .closed => (o.closed, .closed)

def run (o : Outbox) : List Act → Outbox × List Mark
  | [] => (o, [])
  | a :: as => (((o.act a).1.run as).1, (o.act a).2 :: ((o.act a).1.run as).2)

variable {o p q : Outbox} {a : Act} {as : List Act} {marks more : List Mark}

theorem run_append (o : Outbox) (as bs : List Act) :
    o.run (as ++ bs) = (((o.run as).1.run bs).1, (o.run as).2 ++ ((o.run as).1.run bs).2) := by
  induction as generalizing o with
  | nil => rfl
  | cons a as ih => simp only [List.cons_append, run, ih]

theorem run_opened (o : Outbox) (before since : List Act) :
    (o.run (before ++ .opened :: since)).1 = ((o.run before).1.opened.run since).1 := by
  rw [run_append]
  rfl

theorem accepted_append (marks more : List Mark) :
    accepted (marks ++ more) = accepted marks ++ accepted more := List.filterMap_append

theorem batches_append (marks more : List Mark) :
    batches (marks ++ more) = batches marks ++ batches more := List.filterMap_append

/-- The frames in order are those of the batches and then those of the rest, and none of them is
divided. -/
def Whole (frames batches : List Bytes) (rest : Bytes) : Prop :=
  ∃ (groups : List (List Bytes)) (waiting : List Bytes),
    batches = groups.map List.flatten ∧ rest = waiting.flatten ∧ frames = groups.flatten ++ waiting

theorem whole_rest (frames : List Bytes) : Whole frames [] frames.flatten :=
  ⟨[], frames, rfl, rfl, rfl⟩

/-- From `o` to `q` the outbox was open. Frames came in behind those that waited before; they went
out in batches, in order, and the others wait. -/
structure Serves (o : Outbox) (marks : List Mark) (q : Outbox) : Prop where
  isOpen : q.isOpen = true
  whole : ∀ before, o.data = before.flatten →
    Whole (before ++ accepted marks) (batches marks) q.data

theorem Serves.refl (h : o.isOpen = true) : Serves o [] o where
  isOpen := h
  whole before hbefore := by
    rw [hbefore]
    exact (List.append_nil before).symm ▸ whole_rest before

theorem Serves.trans (h : Serves o marks p) (g : Serves p more q) :
    Serves o (marks ++ more) q where
  isOpen := g.isOpen
  whole := by
    intro before hbefore
    obtain ⟨first, between, hfirst, hbetween, hin⟩ := h.whole before hbefore
    obtain ⟨second, waiting, hsecond, hwaiting, hout⟩ := g.whole between hbetween
    refine ⟨first ++ second, waiting, ?_, hwaiting, ?_⟩
    · rw [batches_append, hfirst, hsecond, List.map_append]
    · rw [accepted_append, ← List.append_assoc, hin, List.append_assoc, hout, List.flatten_append,
        List.append_assoc]

theorem serves_push (h : o.isOpen = true) (frame : Bytes) :
    Serves o [(o.act (.push frame)).2] (o.act (.push frame)).1 := by
  rw [act, push_of_open h]
  by_cases hroom : o.data.length + frame.length ≤ o.capacity
  · rw [if_pos hroom]
    refine ⟨h, fun before hbefore => ⟨[], before ++ [frame], rfl, ?_, rfl⟩⟩
    simp [hbefore]
  · rw [if_neg hroom]
    exact ⟨h, (Serves.refl h).whole⟩

theorem serves_take (h : o.isOpen = true) : Serves o [(o.act .take).2] (o.act .take).1 := by
  rw [act, take_of_open h]
  refine ⟨h, fun before hbefore => ⟨[before], [], ?_, rfl, ?_⟩⟩
  · simp [batches, hbefore]
  · simp [accepted]

theorem serves_run (h : o.isOpen = true) (hall : ∀ a ∈ as, a.IsTransfer) :
    Serves o (o.run as).2 (o.run as).1 := by
  induction as generalizing o with
  | nil => exact .refl h
  | cons a as ih =>
    obtain ⟨ha, hrest⟩ := List.forall_mem_cons.1 hall
    have hfirst : Serves o [(o.act a).2] (o.act a).1 := by
      cases a with
      | push frame => exact serves_push h frame
      | take => exact serves_take h
      | opened | closed => exact absurd ha (by simp [Act.IsTransfer])
    exact hfirst.trans (ih hfirst.isOpen hrest)

structure Idle (o : Outbox) : Prop where
  isOpen : o.isOpen = false
  data : o.data = []

theorem idle_create (capacity : Nat) (factor : UInt64) : (create capacity factor).Idle := ⟨rfl, rfl⟩

theorem idle_closed (o : Outbox) : o.closed.Idle := ⟨rfl, rfl⟩

theorem Idle.closed_eq (h : o.Idle) : o.closed = o := by
  obtain ⟨hopen, hdata⟩ := h
  cases o
  simp_all [closed]

theorem Idle.run (h : o.Idle) (hnone : ∀ a ∈ as, a ≠ .opened) :
    (o.run as).1 = o ∧ accepted (o.run as).2 = [] ∧ batches (o.run as).2 = [] := by
  induction as with
  | nil => exact ⟨rfl, rfl, rfl⟩
  | cons a as ih =>
    obtain ⟨ha, hrest⟩ := List.forall_mem_cons.1 hnone
    obtain ⟨hsame, haccepted, hbatches⟩ := ih hrest
    have hstays : (o.act a).1 = o ∧ accepted [(o.act a).2] = [] ∧ batches [(o.act a).2] = [] := by
      cases a with
      | opened => exact absurd rfl ha
      | push frame =>
        rw [act, push_of_shut h.isOpen]
        exact ⟨rfl, rfl, rfl⟩
      | take =>
        rw [act, take_of_shut h.isOpen]
        exact ⟨rfl, rfl, rfl⟩
      | closed => exact ⟨h.closed_eq, rfl, rfl⟩
    obtain ⟨hfirst, hnotAccepted, hnotTaken⟩ := hstays
    rw [Outbox.run, hfirst]
    refine ⟨hsame, ?_, ?_⟩
    · rw [← List.singleton_append, accepted_append, hnotAccepted, haccepted, List.nil_append]
    · rw [← List.singleton_append, batches_append, hnotTaken, hbatches, List.nil_append]

theorem run_closed (o : Outbox) (during : List Act) {after : List Act}
    (hafter : ∀ a ∈ after, a ≠ .opened) :
    (o.run (during ++ .closed :: after)).1 = (o.run during).1.closed ∧
      accepted (o.run (during ++ .closed :: after)).2 = accepted (o.run during).2 ∧
      batches (o.run (during ++ .closed :: after)).2 = batches (o.run during).2 := by
  obtain ⟨hsame, haccepted, hbatches⟩ := (idle_closed (o.run during).1).run hafter
  have hmarks : (o.run (during ++ .closed :: after)).2 =
      (o.run during).2 ++ [.closed] ++ ((o.run during).1.closed.run after).2 := by
    rw [run_append, List.append_assoc]
    rfl
  refine ⟨?_, ?_, ?_⟩
  · rw [run_append]
    exact hsame
  · rw [hmarks, accepted_append, accepted_append, haccepted]
    simp [accepted]
  · rw [hmarks, batches_append, batches_append, hbatches]
    simp [batches]

structure Bounded (start o : Outbox) : Prop where
  capacity : o.capacity = start.capacity
  threshold : o.threshold = start.threshold
  data : o.data.length ≤ o.capacity

theorem Bounded.act {start : Outbox} (h : Bounded start o) (a : Act) :
    Bounded start (o.act a).1 := by
  cases a with
  | opened => exact ⟨h.capacity, h.threshold, Nat.zero_le _⟩
  | push frame =>
    cases hopen : o.isOpen with
    | false =>
      rw [Outbox.act, push_of_shut hopen]
      exact h
    | true =>
      rw [Outbox.act, push_of_open hopen]
      by_cases hroom : o.data.length + frame.length ≤ o.capacity
      · rw [if_pos hroom]
        exact ⟨h.capacity, h.threshold, by rwa [List.length_append]⟩
      · rw [if_neg hroom]
        exact h
  | take =>
    cases hopen : o.isOpen with
    | false =>
      rw [Outbox.act, take_of_shut hopen]
      exact h
    | true =>
      rw [Outbox.act, take_of_open hopen]
      exact ⟨h.capacity, h.threshold, Nat.zero_le _⟩
  | closed => exact ⟨h.capacity, h.threshold, Nat.zero_le _⟩

theorem Bounded.run {start : Outbox} (h : Bounded start o) (as : List Act) :
    Bounded start (o.run as).1 := by
  induction as generalizing o with
  | nil => exact h
  | cons a as ih => exact ih (h.act a)

theorem push_eq_error_iff {frame : Bytes} {e : ClientError} :
    o.push frame = .error e ↔
      (o.isOpen = false ∧ e = .connection .notConnected) ∨
        (o.isOpen = true ∧ o.capacity < o.data.length + frame.length ∧ e = .timeout .write) := by
  cases hopen : o.isOpen with
  | false => simp [push_of_shut hopen, eq_comm]
  | true =>
    rw [push_of_open hopen]
    by_cases hroom : o.data.length + frame.length ≤ o.capacity
    · simp [if_pos hroom, Nat.not_lt.2 hroom]
    · simp [if_neg hroom, Nat.lt_of_not_le hroom, eq_comm]

theorem length_le_of_short {length : Nat} (h : o.isDirect length = false) :
    length ≤ o.capacity := by
  rw [isDirect, decide_eq_false_iff_not, Nat.not_lt] at h
  exact Nat.le_trans h o.threshold_le

theorem push_of_empty {frame : Bytes} (hopen : o.isOpen = true) (hempty : o.data = [])
    (hshort : o.isDirect frame.length = false) :
    o.push frame = .ok { o with data := frame } := by
  have hroom : o.data.length + frame.length ≤ o.capacity := by
    rw [hempty, List.length_nil, Nat.zero_add]
    exact length_le_of_short hshort
  rw [push_of_open hopen, if_pos hroom, hempty, List.nil_append]

/-- What holds of an outbox with room for `room` bytes, made as `start`, when `acts` were done to
it. -/
structure Conserves (start : Outbox) (room : Nat) (acts : List Act) : Prop where
  bounded : (start.run acts).1.data.length ≤ room
  unopened : (∀ a ∈ acts, a ≠ .opened) → (start.run acts).1.Idle
  inOrder : ∀ before during, acts = before ++ .opened :: during →
    (∀ a ∈ during, a.IsTransfer) →
    let since := (start.run before).1.opened.run during
    (start.run acts).1.isOpen = true ∧
      Whole (accepted since.2) (batches since.2) (start.run acts).1.data
  dropped : ∀ before during after, acts = before ++ .opened :: (during ++ .closed :: after) →
    (∀ a ∈ during, a.IsTransfer) → (∀ a ∈ after, a ≠ .opened) →
    let since := (start.run before).1.opened.run (during ++ .closed :: after)
    (start.run acts).1.Idle ∧
      Whole (accepted since.2) (batches since.2) ((start.run before).1.opened.run during).1.data
  refused : ∀ frame e, (start.run acts).1.push frame = .error e ↔
    ((start.run acts).1.isOpen = false ∧ e = .connection .notConnected) ∨
      ((start.run acts).1.isOpen = true ∧
        room < (start.run acts).1.data.length + frame.length ∧ e = .timeout .write)
  unchanged : ∀ frame e, (start.run acts).1.push frame = .error e →
    start.run (acts ++ [.push frame]) =
      ((start.run acts).1, (start.run acts).2 ++ [.refused frame e])
  short : ∀ frame : Bytes, (start.run acts).1.isDirect frame.length = false →
    frame.length ≤ room ∧ ((start.run acts).1.isOpen = true →
      ((start.run acts).1.data = [] → ∃ next, (start.run acts).1.push frame = .ok next) ∧
        ∃ next, (start.run acts).1.take.1.push frame = .ok next)

/-- Whatever its capacity and its factor, be it negative, infinite or no number, and whatever is
done to it in any order: an outbox never holds more than it has room for. What was taken since it
was opened last, and behind that what waits, are the frames that were accepted, whole and in order;
closing drops those that wait. A frame is refused where the outbox is not open or has no room, and
leaves it as it is; one that is not to go past it finds room as soon as the writer has taken what
waits. -/
theorem conserves_run (capacity : Nat) (factor : UInt64) (acts : List Act) :
    Conserves (create capacity factor) (max capacity 1) acts := by
  generalize hstart : create capacity factor = start
  have hbounded : Bounded start (start.run acts).1 :=
    Bounded.run ⟨rfl, rfl, hstart ▸ Nat.zero_le _⟩ acts
  have hroom : (start.run acts).1.capacity = max capacity 1 := hstart ▸ hbounded.capacity
  exact
    { bounded := hroom ▸ hbounded.data
      unopened := by
        intro hnone
        have hidle : start.Idle := hstart ▸ idle_create capacity factor
        rw [(hidle.run hnone).1]
        exact hidle
      inOrder := by
        rintro before during rfl hduring
        have hserves : Serves (start.run before).1.opened _ _ := serves_run rfl hduring
        rw [run_opened]
        exact ⟨hserves.isOpen, hserves.whole [] rfl⟩
      dropped := by
        rintro before during after rfl hduring hafter
        have hserves : Serves (start.run before).1.opened _ _ := serves_run rfl hduring
        obtain ⟨hlast, haccepted, hbatches⟩ :=
          run_closed (start.run before).1.opened during hafter
        rw [run_opened]
        refine ⟨?_, ?_⟩
        · rw [hlast]
          exact idle_closed _
        · rw [haccepted, hbatches]
          exact hserves.whole [] rfl
      refused := by
        intro frame e
        rw [push_eq_error_iff, hroom]
      unchanged := by
        intro frame e hpush
        rw [run_append]
        simp only [run, act, hpush]
      short := by
        intro frame hshort
        refine ⟨hroom ▸ length_le_of_short hshort, fun hopen => ⟨fun hempty => ?_, ?_⟩⟩
        · exact ⟨_, push_of_empty hopen hempty hshort⟩
        · rw [take_of_open hopen]
          exact ⟨_, push_of_empty hopen rfl hshort⟩ }

end TupleClient.Outbox
