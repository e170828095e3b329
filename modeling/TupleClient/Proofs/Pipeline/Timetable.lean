import TupleClient.Proofs.Pipeline.Timers

/-!
The timer over whole runs. Its entries are the deadlines of the operations that wait, each one once
and in order, so that whoever is told that the time is over had a deadline that has passed, unless
that very error was handed in from outside.
-/
namespace TupleClient

namespace Pipeline

variable {κ : Type} {p q : Pipeline κ} {r : Report κ} {x : Event κ} {es : List (Event κ)}

theorem entries_withdraw_sublist {id : Nat} {op : Operation κ} :
    (p.withdraw id op).deadlines.entries.Sublist p.deadlines.entries := by
  unfold withdraw
  cases op.deadline with
  | none => exact .refl _
  | some time => exact List.filter_sublist

theorem entries_expireAll_sublist (p : Pipeline κ) (ids : List Nat) :
    (p.expireAll ids).1.deadlines.entries.Sublist p.deadlines.entries := by
  induction ids generalizing p with
  | nil => exact .refl _
  | cons id ids ih =>
    rw [expireAll_cons]
    refine (ih _).trans ?_
    unfold expire complete
    cases p.operation? id with
    | none => exact .refl _
    | some op => exact entries_withdraw_sublist

theorem entries_tick_sublist (p : Pipeline κ) (now : Nat) :
    (p.tick now).1.deadlines.entries.Sublist p.deadlines.entries :=
  (entries_expireAll_sublist ..).trans (p.deadlines.service_sublist now)

theorem entries_teardown_sublist (p : Pipeline κ) (e : ClientError) :
    (p.teardown e).1.deadlines.entries.Sublist p.deadlines.entries := by
  have hfold (cancel : Deadlines → Nat × Operation κ → Deadlines)
      (hcancel : ∀ ds y, (cancel ds y).entries.Sublist ds.entries)
      (pending : List (Nat × Operation κ)) (ds : Deadlines) :
      (pending.foldl cancel ds).entries.Sublist ds.entries := by
    induction pending generalizing ds with
    | nil => exact .refl _
    | cons y pending ih => exact (ih _).trans (hcancel ds y)
  refine hfold _ (fun ds y => ?_) p.pending p.deadlines
  obtain ⟨id, op⟩ := y
  cases hdeadline : op.deadline <;> simp [hdeadline, Deadlines.cancel, List.filter_sublist]

theorem Part.sorted (h : Part x p r q) (hp : p.deadlines.Sorted) : q.deadlines.Sorted := by
  cases h with
  | failed hsocket he h => exact hp.sublist (entries_teardown_sublist ..)
  | closed hx h => exact List.Pairwise.nil
  | @registered now fault s hx h =>
    unfold register
    cases s.timeout with
    | none => exact hp
    | some timeout => exact Deadlines.sorted_insertInto _ hp
  | ended h ho => exact hp.sublist entries_withdraw_sublist
  | expired hx h => exact hp.sublist entries_withdraw_sublist
  | ticked hx => exact hp.sublist (entries_tick_sublist ..)
  | changed hcell hpending hnext hdeadlines hsocket => exact hdeadlines ▸ hp
  | _ => exact hp

theorem Parts.sorted (h : Parts x p r q) (hp : p.deadlines.Sorted) : q.deadlines.Sorted := by
  induction h with
  | none p => exact hp
  | more first _ ih => exact ih (first.sorted hp)

structure Timetabled (p : Pipeline κ) : Prop where
  timed : p.Timed
  sorted : p.deadlines.Sorted

theorem timetabled_create (settings : PipelineSettings) :
    (create settings : Pipeline κ).Timetabled := ⟨timed_create settings, List.Pairwise.nil⟩

theorem timetabled_run (h : p.Timetabled) (es : List (Event κ)) : (p.run es).1.Timetabled := by
  induction es generalizing p with
  | nil => exact h
  | cons e es ih => exact ih ⟨timed_step h.timed e, (parts_step p e).sorted h.sorted⟩

theorem nodup_timers (h : p.Numbered) : p.timers.Nodup := by
  have hsorted := List.pairwise_map.1 h.sorted_pending
  refine hsorted.filterMap _ fun y z hlt d hd e he heq => ?_
  obtain ⟨time, -, rfl⟩ := Option.map_eq_some_iff.1 hd
  obtain ⟨later, -, rfl⟩ := Option.map_eq_some_iff.1 he
  have hid : y.1 = z.1 := congrArg Deadline.id heq
  omega

theorem Timetabled.perm (h : p.Timetabled) : p.deadlines.entries.Perm p.timers :=
  (List.perm_ext_iff_of_nodup h.sorted.nodup (nodup_timers h.timed.numbered)).2 h.timed.agrees

theorem Numbered.operation?_of_mem (h : p.Numbered) {id : Nat} {op : Operation κ}
    (hop : (id, op) ∈ p.pending) : p.operation? id = some op := by
  cases hfound : p.operation? id with
  | none => exact absurd (List.lookup_eq_none_iff.1 hfound _ hop) (by simp)
  | some other => rw [h.eq_of_mem (mem_of_operation? hfound) hop]

theorem not_pending_run (h : p.Numbered) {id : Nat} (hknown : id < p.nextSync)
    (hoff : p.isPending id = false) (es : List (Event κ)) :
    (p.run es).1.isPending id = false := by
  have hsettles := settles_run h es
  rw [isPending_eq, decide_eq_false_iff_not] at hoff ⊢
  intro hon
  have hwhere := (hsettles.sublist.map Prod.fst).subset hon
  rw [List.map_append, hsettles.numbers, List.mem_append] at hwhere
  cases hwhere with
  | inl hbefore => exact hoff hbefore
  | inr hnew =>
    have hle := (List.mem_range'_1.1 hnew).1
    omega

def Event.now? : Event κ → Option Nat
  | .submit now _ _ => some now
  | .signal (.clock now) => some now
  | _ => none

def clock (t : Nat) : List (Event κ) → Nat
  | [] => t
  | e :: es => clock (e.now?.getD t) es

/-- Called for one operation, the timer has its deadline, which has passed at `t`. -/
def Event.Due (p : Pipeline κ) (t : Nat) : Event κ → Prop
  | .signal (.expired id) =>
    ∀ op, p.operation? id = some op → ∃ time, op.deadline = some time ∧ time ≤ t
  | _ => True

def Timely (p : Pipeline κ) (t : Nat) : List (Event κ) → Prop
  | [] => True
  | e :: es => e.Due p (e.now?.getD t) ∧ (p.step e).1.Timely (e.now?.getD t) es

def Event.Services : Event κ → Deadline → Prop
  | .signal (.clock now), d => d.time ≤ now
  | .signal (.expired id), d => d.id = id
  | _, _ => False

/-- The submission's message could not be built, and for that the time is said to be over. -/
def Event.Blames (tag : κ) : Event κ → Prop
  | .submit _ _ s => s.tag = tag ∧ s.message = .error (.timeout .operation)
  | .signal _ => False

theorem timely_append {t : Nat} {more : List (Event κ)} :
    p.Timely t (es ++ more) ↔ p.Timely t es ∧ (p.run es).1.Timely (clock t es) more := by
  induction es generalizing p t with
  | nil => simp [Timely, run, clock]
  | cons e es ih =>
    rw [List.cons_append, Timely, ih, Timely, and_assoc]
    rfl

theorem clock_append (t : Nat) (es more : List (Event κ)) :
    clock t (es ++ more) = clock (clock t es) more := by
  induction es generalizing t with
  | nil => rfl
  | cons e es ih => exact ih _

theorem pending_run (h : p.Timed) (es : List (Event κ)) {y : Nat × Operation κ}
    (hy : y ∈ (p.run es).1.pending) :
    y ∈ p.pending ∨ ∃ since fault s, .submit since fault s ∈ es ∧ y.2.tag = s.tag ∧
      y.2.deadline = s.timeout.map (since + ·) := by
  induction es generalizing p with
  | nil => exact .inl hy
  | cons e es ih =>
    rcases ih (timed_step h e) hy with hmid | ⟨since, fault, s, hs, htag, hdeadline⟩
    · rcases (parts_step p e).pending h hmid with hbefore | ⟨since, fault, s, rfl, htag, hdeadline⟩
      · exact .inl hbefore
      · exact .inr ⟨since, fault, s, List.mem_cons_self, htag, hdeadline⟩
    · exact .inr ⟨since, fault, s, List.mem_cons_of_mem e hs, htag, hdeadline⟩

theorem terminal_run (hp : p.cell.terminal ≠ some (.timeout .operation)) (es : List (Event κ))
    (h : (p.run es).1.cell.terminal = some (.timeout .operation)) :
    ∃ e ∈ es, e.Brings (.timeout .operation) := by
  induction es generalizing p with
  | nil => exact absurd h hp
  | cons e es ih =>
    by_cases hmid : (p.step e).1.cell.terminal = some (.timeout .operation)
    · have hbrings := ((parts_step p e).terminal hmid).resolve_left hp
      exact ⟨e, List.mem_cons_self, hbrings⟩
    · obtain ⟨y, hy, hbrings⟩ := ih hmid h
      exact ⟨y, List.mem_cons_of_mem e hy, hbrings⟩

theorem outcomes_submit_of_unbuilt {now : Nat} {fault : Option String} {s : Submission κ}
    {e : ClientError} (hmessage : s.message = .error e) :
    (p.step (.submit now fault s)).2.outcomes =
      [(s.tag, .error (p.cell.terminal.getD e))] := by
  cases hterminal : p.cell.terminal <;> simp [step, submit, frameOf, hterminal, hmessage]

theorem isPending_eq_false {id : Nat} (h : ∀ op, (id, op) ∉ p.pending) :
    p.isPending id = false := by
  rw [isPending_eq, decide_eq_false_iff_not, entries, List.map_map, List.mem_map]
  rintro ⟨⟨other, op⟩, hop, rfl⟩
  exact h op hop

theorem untold_of_pending (h : p.Numbered) (hempty : p.pending = []) {es : List (Event κ)}
    (htags : ((p.given es).map Prod.snd).Nodup) {id : Nat} {op : Operation κ}
    (hop : (id, op) ∈ (p.run es).1.pending) : op.tag ∉ (p.run es).2.tags := by
  have haccounts := (settles_run h es).accounts
  have hnone : p.entries = [] := by rw [entries, hempty, List.map_nil]
  rw [hnone, List.nil_append] at haccounts
  have hmem : op.tag ∈ (p.run es).1.entries.map Prod.snd :=
    List.mem_map_of_mem (f := Prod.snd) (List.mem_map_of_mem hop)
  exact fun htold => List.disjoint_of_nodup_append (haccounts.nodup_iff.2 htags) htold hmem

/-- Once the timer has serviced an entry its operation does not wait any more. -/
theorem not_pending_of_serviced (h : p.Timed) {d : Deadline} (hd : d ∈ p.deadlines.entries)
    (hx : x.Services d) (es : List (Event κ)) :
    ((p.step x).1.run es).1.isPending d.id = false := by
  obtain ⟨op, hop, htime⟩ := mem_timers.1 ((h.agrees d).1 hd)
  have hsettles := settles_step h.numbered x
  have hknown : d.id < (p.step x).1.nextSync := by
    have hlt := h.numbered.lt_nextSync _ (mem_entries (h.numbered.operation?_of_mem hop))
    rw [hsettles.nextSync]
    exact Nat.lt_add_right _ hlt
  have hoff : ∀ other, (d.id, other) ∉ (p.step x).1.pending := by
    intro other hother
    cases x with
    | submit now fault s => exact hx
    | signal s =>
      cases s with
      | clock now =>
        obtain ⟨hbefore, hlater⟩ := (mem_pending_tick h now).1 hother
        obtain rfl := h.numbered.eq_of_mem hop hbefore
        exact absurd (hlater d.time htime) (Nat.not_lt.2 hx)
      | expired id => exact (mem_pending_expire.1 hother).2 hx
      | _ => exact hx
  exact not_pending_run (hsettles.numbered h.numbered) hknown (isPending_eq_false hoff) es

/-- Who is told by one event that the time is over has an operation that waited for longer than it
was to, and leaves now, or the error is there for another reason. -/
theorem overtime_step (h : p.Timed) {t : Nat} (hdue : x.Due p t)
    (hshown : ∀ now, x.now? = some now → now ≤ t) {tag : κ}
    (htold : (tag, .error (.timeout .operation)) ∈ (p.step x).2.outcomes) :
    p.cell.terminal = some (.timeout .operation) ∨ x.Brings (.timeout .operation) ∨
      x.Blames tag ∨ ∃ id op time, (id, op) ∈ p.pending ∧ op.tag = tag ∧
        op.deadline = some time ∧ time ≤ t ∧ (p.step x).1.isPending id = false := by
  by_cases hterminal : p.cell.terminal = some (.timeout .operation)
  · exact .inl hterminal
  refine .inr ?_
  by_cases hbrings : x.Brings (.timeout .operation)
  · exact .inl hbrings
  refine .inr ?_
  -- Only the timer, or a submission for its own message, can say so now.
  have huntimed (htimer : ¬ x.IsTimer) (hmessage : ∀ now fault s, x = .submit now fault s →
      s.message ≠ .error (.timeout .operation)) : False :=
    (parts_step p x).untimed htimer hbrings
      (fun now fault s hs => ⟨hmessage now fault s hs, hterminal⟩) tag htold
  cases x with
  | submit now fault s =>
    by_cases hmessage : s.message = .error (.timeout .operation)
    · rw [outcomes_submit_of_unbuilt hmessage, List.mem_singleton, Prod.mk.injEq] at htold
      exact .inl ⟨htold.1.symm, hmessage⟩
    · exact (huntimed id (by rintro _ _ _ ⟨⟩; exact hmessage)).elim
  | signal s =>
    cases s with
    | clock now =>
      obtain ⟨-, id, op, time, hop, htag, htime, hpassed⟩ := outcomes_tick h htold
      refine .inr ⟨id, op, time, hop, htag, htime, Nat.le_trans hpassed (hshown now rfl), ?_⟩
      refine isPending_eq_false fun other hother => ?_
      obtain ⟨hbefore, hlater⟩ := (mem_pending_tick h now).1 hother
      obtain rfl := h.numbered.eq_of_mem hop hbefore
      exact absurd (hlater time htime) (Nat.not_lt.2 hpassed)
    | expired id =>
      have hone : (p.expireAll [id]).2 = (p.expire id).2 := Report.andThen_silent _
      have htold : (tag, .error (.timeout .operation)) ∈ (p.expireAll [id]).2.outcomes := by
        rw [hone]
        exact htold
      obtain ⟨-, other, op, hid, hop, htag⟩ := outcomes_expireAll htold
      obtain rfl := List.mem_singleton.1 hid
      obtain ⟨time, htime, hpassed⟩ := hdue op (h.numbered.operation?_of_mem hop)
      refine .inr ⟨other, op, time, hop, htag, htime, hpassed, ?_⟩
      exact isPending_eq_false fun _ hother => (mem_pending_expire.1 hother).2 rfl
    | _ => exact (huntimed (fun h => h) fun _ _ _ h => by cases h).elim

/-- Behind `before` an operation of the tag waits. Its deadline, which is that of its submission,
has passed when `x` comes, and with `x` it leaves. Where the tags differ nothing else was told of
it. -/
def Overdue (start : Pipeline κ) (before : List (Event κ)) (x : Event κ) (tag : κ) : Prop :=
  ∃ id op time, (start.run before).1.operation? id = some op ∧ op.tag = tag ∧
    op.deadline = some time ∧ time ≤ clock 0 (before ++ [x]) ∧
    ((start.run before).1.step x).1.isPending id = false ∧
    (∃ since fault s timeout, .submit since fault s ∈ before ∧ s.tag = tag ∧
      s.timeout = some timeout ∧ time = since + timeout) ∧
    (((start.given before).map Prod.snd).Nodup → tag ∉ (start.run before).2.tags)

structure KeepsTime (start : Pipeline κ) (es : List (Event κ)) : Prop where
  entries : (start.run es).1.deadlines.entries.Perm (start.run es).1.timers
  sorted : (start.run es).1.deadlines.Sorted
  backed : ∀ d ∈ (start.run es).1.deadlines.entries, ∃ op,
    (start.run es).1.operation? d.id = some op ∧ op.deadline = some d.time
  serviced : ∀ before x after, es = before ++ x :: after →
    ∀ d ∈ (start.run before).1.deadlines.entries, x.Services d →
      (start.run es).1.isPending d.id = false
  overtime : start.Timely 0 es → ∀ before x after, es = before ++ x :: after → ∀ tag,
    (tag, .error (.timeout .operation)) ∈ ((start.run before).1.step x).2.outcomes →
      (∃ y ∈ before ++ [x], y.Brings (.timeout .operation)) ∨ x.Blames tag ∨
        start.Overdue before x tag

theorem overdue_of_pending (settings : PipelineSettings) {before : List (Event κ)} {tag : κ}
    {id time : Nat} {op : Operation κ}
    (hop : (id, op) ∈ ((create settings).run before).1.pending) (htag : op.tag = tag)
    (htime : op.deadline = some time) (hpassed : time ≤ clock 0 (before ++ [x]))
    (hleaves : (((create settings).run before).1.step x).1.isPending id = false) :
    (create settings).Overdue before x tag := by
  have hcreated := timed_create (κ := κ) settings
  have htimed := (timetabled_run (timetabled_create settings) before).timed
  refine ⟨id, op, time, htimed.numbered.operation?_of_mem hop, htag, htime, hpassed, hleaves, ?_,
    fun htags => htag ▸ untold_of_pending hcreated.numbered rfl htags hop⟩
  obtain hnone | ⟨since, fault, s, hs, hsame, hdeadline⟩ := pending_run hcreated before hop
  · cases hnone
  · rw [htime] at hdeadline
    obtain ⟨timeout, htimeout, hsum⟩ := Option.map_eq_some_iff.1 hdeadline.symm
    exact ⟨since, fault, s, timeout, hs, hsame.symm.trans htag, htimeout, hsum.symm⟩

/-- The timer and the table of a pipeline agree over every run: the entries of the timer are the
deadlines of the operations that wait, each one once, and none outlives its operation; an operation
whose entry was serviced does not wait any more. If the timer calls for nothing but what is due, who
is told that the time is over had a deadline, which has passed, and was told nothing else, unless
that error itself was handed in: the reason of a close, the error that a connection broke with, or
the reason why the message could not be built. -/
theorem keepsTime_run (settings : PipelineSettings) (es : List (Event κ)) :
    KeepsTime (create settings) es := by
  have hcreated := timetabled_create (κ := κ) settings
  have hlast := timetabled_run hcreated es
  exact
    { entries := hlast.perm
      sorted := hlast.sorted
      backed := by
        intro d hd
        obtain ⟨op, hop, htime⟩ := mem_timers.1 ((hlast.timed.agrees d).1 hd)
        exact ⟨op, hlast.timed.numbered.operation?_of_mem hop, htime⟩
      serviced := by
        rintro before x after rfl d hd hx
        rw [run_append]
        exact not_pending_of_serviced (timetabled_run hcreated before).timed hd hx after
      overtime := by
        rintro htimely before x after rfl tag htold
        have htimed := (timetabled_run hcreated before).timed
        have hshown : ∀ now, x.now? = some now → now ≤ clock 0 (before ++ [x]) := by
          intro now hnow
          simp [clock_append, clock, hnow]
        have hdue : x.Due ((create settings).run before).1 (clock 0 (before ++ [x])) := by
          rw [clock_append]
          exact (timely_append.1 htimely).2.1
        rcases overtime_step htimed hdue hshown htold with
          hterminal | hbrings | hblames | ⟨id, op, time, hop, htag, htime, hpassed, hleaves⟩
        · obtain ⟨y, hy, hbrings⟩ := terminal_run (by simp [create, Lifecycle.Cell.initial]) before
            hterminal
          exact .inl ⟨y, List.mem_append_left _ hy, hbrings⟩
        · exact .inl ⟨x, by simp, hbrings⟩
        · exact .inr (.inl hblames)
        · exact .inr (.inr (overdue_of_pending settings hop htag htime hpassed hleaves)) }

/-- The timer calls for the first of two operations, at a time that the submission of the second one
has shown. -/
theorem keepsTime_run_of_call :
    let ping (now timeout tag : Nat) : Event Nat :=
      .submit now none ⟨.ping, .ok ⟨.empty, .empty⟩, some timeout, tag⟩
    let before : List (Event Nat) :=
      [.signal .supervised, .signal .seeking, .signal .begun, .signal (.attached 1 "a:1" [] none),
        .signal (.started 1 .writer), .signal (.started 1 .reader), ping 0 50 8, ping 60 70 9]
    let call : Event Nat := .signal (.expired 1)
    let start : Pipeline Nat := create ⟨none, 1000, 1024, Settings.half, 1024⟩
    start.Timely 0 (before ++ [call]) ∧ start.Overdue before call 8 ∧
      (start.run (before ++ [call])).1.deadlines.entries.Perm [⟨130, 2⟩] := by
  intro ping before call start
  have hfound : ((start.run before).1.operation? 1).map (fun op => (op.deadline, op.tag)) =
      some (some 50, 8) := by
    decide +kernel
  obtain ⟨op, hop, hshape⟩ := Option.map_eq_some_iff.1 hfound
  obtain ⟨hdeadline, htag⟩ := Prod.mk.inj hshape
  have htimely : start.Timely 0 (before ++ [call]) := by
    have hdue : call.Due (start.run before).1 60 := by
      intro other hother
      obtain rfl := Option.some.inj (hop.symm.trans hother)
      exact ⟨50, hdeadline, by decide⟩
    have hbefore : start.Timely 0 before :=
      ⟨trivial, trivial, trivial, trivial, trivial, trivial, trivial, trivial, trivial⟩
    exact timely_append.2 ⟨hbefore, hdue, trivial⟩
  have hkeeps : start.KeepsTime (before ++ [call]) :=
    keepsTime_run ⟨none, 1000, 1024, Settings.half, 1024⟩ (before ++ [call])
  have htold : (8, .error (.timeout .operation)) ∈ ((start.run before).1.step call).2.outcomes := by
    generalize (start.run before).1 = p at hop
    simp [step, signal, expire, complete, call, hop, htag]
  refine ⟨htimely, ?_, ?_⟩
  · rcases hkeeps.overtime htimely before call [] rfl 8 htold with
      ⟨y, hy, hbrings⟩ | hblames | hoverdue
    · have hnone : ∀ y ∈ before ++ [call], ¬ y.Brings (.timeout .operation) := by
        simp [before, call, ping, Event.Brings]
      exact absurd hbrings (hnone y hy)
    · exact hblames.elim
    · exact hoverdue
  · have htimers : (start.run (before ++ [call])).1.timers = [⟨130, 2⟩] := by
      decide +kernel
    rw [← htimers]
    exact hkeeps.entries

/-- Nobody has to have a deadline to be told that the time is over: everything is closed for that
reason, which then meets an operation without one. -/
theorem overtime_without_deadline :
    let es : List (Event Nat) := [.signal (.closed (.timeout .operation)),
      .submit 0 none ⟨.ping, .ok ⟨.empty, .empty⟩, none, 7⟩]
    let start : Pipeline Nat := create ⟨none, 1000, 1024, Settings.half, 1024⟩
    start.Timely 0 es ∧ (∀ now fault s, .submit now fault s ∈ es → s.timeout = none) ∧
      (7, .error (.timeout .operation)) ∈ (start.run es).2.outcomes := by
  intro es start
  refine ⟨⟨trivial, trivial, trivial⟩, ?_, ?_⟩
  · intro now fault s hs
    simp only [es, List.mem_cons, List.not_mem_nil, reduceCtorEq, Event.submit.injEq, or_false,
      false_or] at hs
    rw [hs.2.2]
  · have hall : (start.run es).2.outcomes = [(7, .error (.timeout .operation))] := by rfl
    rw [hall]
    exact List.mem_singleton_self _

end Pipeline
end TupleClient
