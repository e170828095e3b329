import Mathlib.Data.List.Perm.Basic
import TupleClient.Pipeline

/-!
Replies find their operations by number. In whatever order they come, every operation is told the
same, and the same state is left.
-/
namespace TupleClient.Pipeline

variable {κ : Type} {p : Pipeline κ} {m : Message} {ms : List Message}

def replyTo (id : Nat) (op : Operation κ) (m : Message) : Outcome :=
  match m.code? with
  | some 0 => .ok ⟨id, m.schemaVersion?, some op.type, m.body⟩
  | code => .error (.server (Response.serverError (code.getD 0) m.body))

def notice (p : Pipeline κ) (m : Message) : Pipeline κ :=
  { p with schemaVersion := max p.schemaVersion (m.schemaVersion?.getD 0) }

theorem dispatch_eq (p : Pipeline κ) (m : Message) :
    p.dispatch m =
      match m.sync? with
      | none => (p.notice m, .silent, some (.violation "response without sync id"))
      | some sync =>
        match (p.notice m).operation? sync with
        | none => (p.notice m, .silent, none)
        | some op =>
          let q := (p.notice m).withdraw sync op
          match Response.ofMessage m (some op.type) with
          | .ok (_, .ok response) => (q, .ended op.tag (.ok response), none)
          | .ok (_, .error e) => (q, .ended op.tag (.error (.server e)), none)
          | .error e => (q, .ended op.tag (.error (.connection e)), some e) := by
  unfold dispatch notice
  cases m.schemaVersion? with
  | none =>
    have hversion : max p.schemaVersion (none.getD 0) = p.schemaVersion := Nat.max_zero _
    exact hversion.symm ▸ rfl
  | some version => rfl

theorem dispatch_without_sync (h : m.sync? = none) :
    p.dispatch m = (p.notice m, .silent, some (.violation "response without sync id")) := by
  rw [dispatch_eq, h]

theorem dispatch_unknown {id : Nat} (hsync : m.sync? = some id) (hop : p.operation? id = none) :
    p.dispatch m = (p.notice m, .silent, none) := by
  have hnoticed : (p.notice m).operation? id = none := hop
  rw [dispatch_eq, hsync]
  simp only [hnoticed]

theorem dispatch_reply {id : Nat} {op : Operation κ} (hsync : m.sync? = some id)
    (hop : p.operation? id = some op) (hcode : m.code?.isSome) :
    p.dispatch m = ((p.notice m).withdraw id op, .ended op.tag (replyTo id op m), none) := by
  obtain ⟨code, hcode⟩ := Option.isSome_iff_exists.1 hcode
  have hnoticed : (p.notice m).operation? id = some op := hop
  rw [dispatch_eq, hsync]
  simp only [hnoticed, Response.ofMessage, hsync, hcode, replyTo]
  cases code <;> rfl

theorem dispatch_without_code {id : Nat} {op : Operation κ} (hsync : m.sync? = some id)
    (hop : p.operation? id = some op) (hcode : m.code? = none) :
    p.dispatch m = ((p.notice m).withdraw id op,
      .ended op.tag (.error (.connection (.violation "response without status code"))),
      some (.violation "response without status code")) := by
  have hnoticed : (p.notice m).operation? id = some op := hop
  rw [dispatch_eq, hsync]
  simp only [hnoticed, Response.ofMessage, hsync, hcode]

theorem cell_dispatch (p : Pipeline κ) (m : Message) : (p.dispatch m).1.cell = p.cell := by
  rw [dispatch_eq]
  split
  · rfl
  · split
    · rfl
    · simp only
      split <;> rfl

theorem socket_dispatch (p : Pipeline κ) (m : Message) : (p.dispatch m).1.socket = p.socket := by
  rw [dispatch_eq]
  split
  · rfl
  · split
    · rfl
    · simp only
      split <;> rfl

/-- Frames one after another, up to one that breaks the rules. -/
def dispatchAll (p : Pipeline κ) : List Message → Pipeline κ × Report κ × Option ConnectionError
  | [] => (p, .silent, none)
  | m :: ms =>
    match p.dispatch m with
    | (q, r, none) =>
      let (done, more, broken) := q.dispatchAll ms
      (done, r.andThen more, broken)
    | (q, r, some e) => (q, r, some e)

/-- Whom a frame answers, and what it says to them. -/
def answer (p : Pipeline κ) (m : Message) : Option (κ × Outcome) := do
  let id ← m.sync?
  let op ← p.operation? id
  some (op.tag, replyTo id op m)

def metDeadline (p : Pipeline κ) (m : Message) : Option Deadline := do
  let id ← m.sync?
  let op ← p.operation? id
  let time ← op.deadline
  some ⟨time, id⟩

/-- What replies leave: the operations without one, the newest version, and the deadlines that are
still to be met. -/
def afterReplies (p : Pipeline κ) (ms : List Message) : Pipeline κ :=
  { p with
    pending := p.pending.filter fun x => some x.1 ∉ ms.map Message.sync?
    schemaVersion := (ms.filterMap Message.schemaVersion?).foldl max p.schemaVersion
    deadlines :=
      { p.deadlines with
        entries := p.deadlines.entries.filter fun d => d ∉ ms.filterMap p.metDeadline } }

theorem foldl_max_version (m : Message) (ms : List Message) (version : Nat) :
    ((m :: ms).filterMap Message.schemaVersion?).foldl max version =
      (ms.filterMap Message.schemaVersion?).foldl max (max version (m.schemaVersion?.getD 0)) := by
  cases h : m.schemaVersion? with
  | none => rw [List.filterMap_cons_none h, Option.getD_none, Nat.max_zero]
  | some v => rw [List.filterMap_cons_some h, List.foldl_cons, Option.getD_some]

theorem operation?_withdraw {id other : Nat} {op : Operation κ} (h : other ≠ id) :
    (p.withdraw id op).operation? other = p.operation? other := by
  unfold operation? withdraw
  simp only
  induction p.pending with
  | nil => rfl
  | cons x rest ih =>
    obtain ⟨key, a⟩ := x
    by_cases hkey : key = id
    · subst hkey
      have hother : (other == key) = false := beq_eq_false_iff_ne.2 h
      rw [List.filter_cons_of_neg (by simp), List.lookup_cons, hother, ih]
    · rw [List.filter_cons_of_pos (by simpa using hkey), List.lookup_cons, List.lookup_cons, ih]

theorem answer_withdraw {id : Nat} {op : Operation κ} (h : m.sync? ≠ some id) :
    (p.withdraw id op).answer m = p.answer m := by
  unfold answer
  cases hsync : m.sync? with
  | none => rfl
  | some other =>
    have hne : other ≠ id := fun heq => h (hsync.trans (congrArg some heq))
    simp only [Option.bind_eq_bind, Option.bind_some, operation?_withdraw hne]

theorem metDeadline_withdraw {id : Nat} {op : Operation κ} (h : m.sync? ≠ some id) :
    (p.withdraw id op).metDeadline m = p.metDeadline m := by
  unfold metDeadline
  cases hsync : m.sync? with
  | none => rfl
  | some other =>
    have hne : other ≠ id := fun heq => h (hsync.trans (congrArg some heq))
    simp only [Option.bind_eq_bind, Option.bind_some, operation?_withdraw hne]

theorem afterReplies_unknown {id : Nat} (hsync : m.sync? = some id)
    (hop : p.operation? id = none) : (p.notice m).afterReplies ms = p.afterReplies (m :: ms) := by
  have hpending : (p.pending.filter fun x => some x.1 ∉ ms.map Message.sync?) =
      p.pending.filter fun x => some x.1 ∉ (m :: ms).map Message.sync? := by
    refine List.filter_congr fun x hx => ?_
    have hne : x.1 ≠ id := by
      rintro rfl
      exact absurd (List.lookup_eq_none_iff.1 hop x hx) (by simp)
    simp [hsync, hne]
  have hmet : p.metDeadline m = none := by simp [metDeadline, hsync, hop]
  simp only [afterReplies, notice, hpending, foldl_max_version, List.filterMap_cons_none hmet]
  rfl

theorem afterReplies_reply {id : Nat} {op : Operation κ} (hsync : m.sync? = some id)
    (hop : p.operation? id = some op) (hms : ∀ n ∈ ms, n.sync? ≠ some id) :
    ((p.notice m).withdraw id op).afterReplies ms = p.afterReplies (m :: ms) := by
  have hpending : ((p.pending.filter (·.1 != id)).filter fun x => some x.1 ∉ ms.map Message.sync?) =
      p.pending.filter fun x => some x.1 ∉ (m :: ms).map Message.sync? := by
    rw [List.filter_filter]
    refine List.filter_congr fun x _ => ?_
    by_cases hx : x.1 = id <;> simp [hsync, hx]
  have hmet : ms.filterMap ((p.notice m).withdraw id op).metDeadline = ms.filterMap p.metDeadline :=
    List.filterMap_congr fun n hn => metDeadline_withdraw (hms n hn)
  have hdeadlines : (p.withdraw id op).deadlines.entries.filter
      (fun d => d ∉ ms.filterMap p.metDeadline) =
      p.deadlines.entries.filter fun d => d ∉ (m :: ms).filterMap p.metDeadline := by
    cases hdeadline : op.deadline with
    | none =>
      have hmine : p.metDeadline m = none := by simp [metDeadline, hsync, hop, hdeadline]
      rw [List.filterMap_cons_none hmine, withdraw, hdeadline]
    | some time =>
      have hmine : p.metDeadline m = some ⟨time, id⟩ := by
        simp [metDeadline, hsync, hop, hdeadline]
      rw [List.filterMap_cons_some hmine, withdraw, hdeadline]
      simp only [Deadlines.cancel, List.filter_filter]
      refine List.filter_congr fun d _ => ?_
      by_cases hd : d = ⟨time, id⟩ <;> simp [hd]
  have hrunning : (p.withdraw id op).deadlines.running = p.deadlines.running := by
    unfold withdraw
    cases op.deadline <;> rfl
  simp only [afterReplies, foldl_max_version, ← hpending, ← hdeadlines, ← hrunning, hmet]
  rfl

theorem dispatchAll_replies (p : Pipeline κ) (ms : List Message)
    (hreply : ∀ m ∈ ms, m.sync?.isSome ∧ m.code?.isSome)
    (hdistinct : (ms.map Message.sync?).Nodup) :
    p.dispatchAll ms =
      (p.afterReplies ms, ⟨(ms.filterMap p.answer).map fun x => .ended x.1 x.2, [], false⟩,
        none) := by
  induction ms generalizing p with
  | nil => simp [dispatchAll, afterReplies, Report.silent]
  | cons m ms ih =>
    rw [List.map_cons, List.nodup_cons] at hdistinct
    obtain ⟨⟨hsync, hcode⟩, hrest⟩ := List.forall_mem_cons.1 hreply
    obtain ⟨id, hsync⟩ := Option.isSome_iff_exists.1 hsync
    have hms : ∀ n ∈ ms, n.sync? ≠ some id := by
      intro n hn heq
      exact hdistinct.1 (hsync ▸ heq ▸ List.mem_map_of_mem hn)
    cases hop : p.operation? id with
    | none =>
      have hmine : p.answer m = none := by simp [answer, hsync, hop]
      rw [dispatchAll, dispatch_unknown hsync hop]
      simp only
      rw [ih _ hrest hdistinct.2, afterReplies_unknown hsync hop, List.filterMap_cons_none hmine]
      rfl
    | some op =>
      have hmine : p.answer m = some (op.tag, replyTo id op m) := by simp [answer, hsync, hop]
      have hothers : ms.filterMap ((p.notice m).withdraw id op).answer = ms.filterMap p.answer :=
        List.filterMap_congr fun n hn => answer_withdraw (hms n hn)
      rw [dispatchAll, dispatch_reply hsync hop hcode]
      simp only
      rw [ih _ hrest hdistinct.2, afterReplies_reply hsync hop hms, hothers,
        List.filterMap_cons_some hmine]
      rfl

theorem outcomes_answers (told : List (κ × Outcome)) :
    (⟨told.map fun x => .ended x.1 x.2, [], false⟩ : Report κ).outcomes = told := by
  rw [Report.outcomes, List.filterMap_map]
  exact List.filterMap_some

theorem afterReplies_perm {shuffled : List Message} (h : shuffled.Perm ms) :
    p.afterReplies shuffled = p.afterReplies ms := by
  have hversion : (shuffled.filterMap Message.schemaVersion?).foldl max p.schemaVersion =
      (ms.filterMap Message.schemaVersion?).foldl max p.schemaVersion :=
    (h.filterMap _).foldl_eq _
  have hsync : ∀ id, id ∈ shuffled.map Message.sync? ↔ id ∈ ms.map Message.sync? :=
    fun id => (h.map _).mem_iff
  have hmet : ∀ d, d ∈ shuffled.filterMap p.metDeadline ↔ d ∈ ms.filterMap p.metDeadline :=
    fun d => (h.filterMap _).mem_iff
  simp only [afterReplies, hversion, hsync, hmet]

/-- Replies to different numbers may come in any order. Each one that an operation waits for ends
that operation, with what it says itself and under the operation's own type; the other operations
wait on, and the version is the greatest that was known or told. A frame that none waits for tells
its version and does nothing else. -/
theorem dispatchAll_in_any_order (p : Pipeline κ) (ms : List Message)
    (hreply : ∀ m ∈ ms, m.sync?.isSome ∧ m.code?.isSome)
    (hdistinct : (ms.map Message.sync?).Nodup) :
    (∀ shuffled : List Message, shuffled.Perm ms →
      let (q, report, broken) := p.dispatchAll shuffled
      broken = none ∧ q = (p.dispatchAll ms).1 ∧
        report.outcomes = shuffled.filterMap p.answer ∧
        report.outcomes.Perm (p.dispatchAll ms).2.1.outcomes ∧
        q.pending = p.pending.filter (fun x => some x.1 ∉ ms.map Message.sync?) ∧
        q.schemaVersion = (ms.filterMap Message.schemaVersion?).foldl max p.schemaVersion) ∧
      ∀ m id, m.sync? = some id → p.operation? id = none →
        p.dispatch m = (p.notice m, .silent, none) := by
  refine ⟨fun shuffled hperm => ?_, fun m id => dispatch_unknown⟩
  have hshuffled := dispatchAll_replies p shuffled
    (fun m hm => hreply m (hperm.mem_iff.1 hm)) ((hperm.map _).nodup_iff.2 hdistinct)
  rw [dispatchAll_replies p ms hreply hdistinct, hshuffled, afterReplies_perm hperm]
  have houtcomes := hperm.filterMap p.answer
  refine ⟨rfl, rfl, outcomes_answers _, ?_, rfl, rfl⟩
  rwa [outcomes_answers, outcomes_answers]

def frame (code sync version : Nat) : Message :=
  ⟨.ofList [(Message.codeKey, .ofNat code), (Message.syncKey, .ofNat sync),
    (Message.schemaVersionKey, .ofNat version)], .empty⟩

def twoWaiting : Pipeline Nat :=
  { (create ⟨none, 1000, 1024, Settings.half, 1024⟩ : Pipeline Nat) with
    pending := [(1, ⟨.ping, none, 0, 7⟩), (2, ⟨.select, some 50, 0, 8⟩)] }

/-- One operation is answered and the other one refused; a third frame is for nobody. -/
theorem dispatchAll_in_any_order_of_three :
    let ms := [frame 0 1 3, frame 0x8007 2 4, frame 0 9 6]
    (∀ m ∈ ms, m.sync?.isSome ∧ m.code?.isSome) ∧ (ms.map Message.sync?).Nodup ∧
      (twoWaiting.dispatchAll ms.reverse).1 = (twoWaiting.dispatchAll ms).1 ∧
      (twoWaiting.dispatchAll ms.reverse).1.schemaVersion = 6 ∧
      (twoWaiting.dispatchAll ms.reverse).2.1.outcomes =
        [(8, .error (.server ⟨7, "server error 7"⟩)),
          (7, .ok ⟨1, some 3, some .ping, .empty⟩)] := by
  intro ms
  have hreply : ∀ m ∈ ms, m.sync?.isSome ∧ m.code?.isSome := by decide
  have hdistinct : (ms.map Message.sync?).Nodup := by decide
  obtain ⟨-, hsame, houtcomes, -, -, hversion⟩ :=
    (dispatchAll_in_any_order twoWaiting ms hreply hdistinct).1 ms.reverse (List.reverse_perm ms)
  exact ⟨hreply, hdistinct, hsame, hversion.trans (by decide), houtcomes.trans (by rfl)⟩

end TupleClient.Pipeline
