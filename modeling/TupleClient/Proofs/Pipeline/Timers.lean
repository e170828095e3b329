import TupleClient.Proofs.Deadlines.Entries
import TupleClient.Proofs.Pipeline.Steps

/-!
The timer of a pipeline. It holds the deadlines of the operations that wait, so that the clock ends
those whose time is over and no others.
-/
namespace TupleClient

namespace Report

variable {κ : Type}

@[simp] theorem outcomes_silent : (silent : Report κ).outcomes = [] := rfl

@[simp] theorem outcomes_ended (tag : κ) (outcome : Outcome) :
    (ended tag outcome).outcomes = [(tag, outcome)] := rfl

@[simp] theorem outcomes_entered (s : Lifecycle.State) :
    (entered s : Report κ).outcomes = [] := rfl

@[simp] theorem outcomes_writing (bytes : Bytes) : (writing bytes : Report κ).outcomes = [] := rfl

end Report

namespace Pipeline

variable {κ : Type} {p q : Pipeline κ} {r : Report κ} {x : Event κ} {d : Deadline}

def timers (p : Pipeline κ) : List Deadline :=
  p.pending.filterMap fun y => y.2.deadline.map (⟨·, y.1⟩)

theorem mem_timers :
    d ∈ p.timers ↔ ∃ op, (d.id, op) ∈ p.pending ∧ op.deadline = some d.time := by
  simp only [timers, List.mem_filterMap, Option.map_eq_some_iff]
  constructor
  · rintro ⟨⟨id, op⟩, hmem, time, htime, rfl⟩
    exact ⟨op, hmem, htime⟩
  · rintro ⟨op, hmem, htime⟩
    exact ⟨(d.id, op), hmem, d.time, htime, rfl⟩

/-- The timer holds what it should, for as long as it runs. Once all is closed nothing waits and
nothing is taken any more. -/
structure Timed (p : Pipeline κ) : Prop where
  numbered : p.Numbered
  agrees : ∀ d, d ∈ p.deadlines.entries ↔ d ∈ p.timers
  stopped : p.deadlines.running = false → p.state = .closed
  shut : p.state = .closed → p.pending = [] ∧ p.cell.terminal ≠ none

theorem timed_create (settings : PipelineSettings) : (create settings : Pipeline κ).Timed where
  numbered := numbered_create settings
  agrees := by simp [create, Deadlines.empty, timers]
  stopped := by simp [create, Deadlines.empty]
  shut := by simp [create, state, Lifecycle.Cell.initial]

theorem Numbered.eq_of_mem (h : p.Numbered) {id : Nat} {op other : Operation κ}
    (hop : (id, op) ∈ p.pending) (hother : (id, other) ∈ p.pending) : op = other := by
  have hnodup : (p.pending.map Prod.fst).Nodup := h.sorted_pending.imp Nat.ne_of_lt
  have hsame := List.inj_on_of_nodup_map hnodup hop hother rfl
  exact (Prod.mk.inj hsame).2

theorem mem_of_operation? {id : Nat} {op : Operation κ} (h : p.operation? id = some op) :
    (id, op) ∈ p.pending := by
  obtain ⟨before, after, hpending, -⟩ := List.lookup_eq_some_iff.1 h
  simp [hpending]

theorem mem_pending_withdraw {id : Nat} {op : Operation κ} {y : Nat × Operation κ} :
    y ∈ (p.withdraw id op).pending ↔ y ∈ p.pending ∧ y.1 ≠ id := by
  simp [withdraw]

theorem mem_deadlines_withdraw {id : Nat} {op : Operation κ} :
    d ∈ (p.withdraw id op).deadlines.entries ↔
      d ∈ p.deadlines.entries ∧ ∀ time, op.deadline = some time → d ≠ ⟨time, id⟩ := by
  unfold withdraw
  cases op.deadline <;> simp

theorem running_withdraw {id : Nat} {op : Operation κ} :
    (p.withdraw id op).deadlines.running = p.deadlines.running := by
  unfold withdraw
  cases op.deadline <;> simp

theorem timed_withdraw (h : p.Timed) {id : Nat} {op : Operation κ}
    (hop : p.operation? id = some op) : (p.withdraw id op).Timed where
  numbered := (settles_withdraw h.numbered hop (.error .endOfInput)).numbered h.numbered
  agrees := by
    intro d
    have hmem := mem_of_operation? hop
    rw [mem_deadlines_withdraw, h.agrees, mem_timers, mem_timers]
    simp only [mem_pending_withdraw]
    constructor
    · rintro ⟨⟨other, hother, htime⟩, hne⟩
      refine ⟨other, ⟨hother, ?_⟩, htime⟩
      rintro rfl
      obtain rfl := h.numbered.eq_of_mem hmem hother
      exact hne d.time htime rfl
    · rintro ⟨other, ⟨hother, hid⟩, htime⟩
      refine ⟨⟨other, hother, htime⟩, fun time _ heq => hid ?_⟩
      rw [heq]
  stopped := by
    rw [running_withdraw]
    exact h.stopped
  shut := by
    intro hclosed
    obtain ⟨hnone, hterminal⟩ := h.shut hclosed
    simp [operation?, hnone] at hop

theorem timed_complete (h : p.Timed) (id : Nat) (outcome : Outcome) :
    (p.complete id outcome).1.Timed := by
  unfold complete
  cases hop : p.operation? id with
  | none => exact h
  | some op => exact timed_withdraw h hop

theorem mem_deadlines_teardown (e : ClientError) :
    d ∈ (p.teardown e).1.deadlines.entries ↔ d ∈ p.deadlines.entries ∧ d ∉ p.timers := by
  have hfold (cancel : Deadlines → Nat × Operation κ → Deadlines)
      (hcancel : ∀ ds y, d ∈ (cancel ds y).entries ↔
        d ∈ ds.entries ∧ y.2.deadline.map (⟨·, y.1⟩) ≠ some d)
      (pending : List (Nat × Operation κ)) (ds : Deadlines) :
      d ∈ (pending.foldl cancel ds).entries ↔
        d ∈ ds.entries ∧ d ∉ pending.filterMap fun y => y.2.deadline.map (⟨·, y.1⟩) := by
    induction pending generalizing ds with
    | nil => simp
    | cons y pending ih =>
      rw [List.foldl_cons, ih, hcancel]
      cases hdeadline : y.2.deadline <;> simp [hdeadline, and_assoc, eq_comm]
  unfold teardown
  refine hfold _ (fun ds y => ?_) p.pending p.deadlines
  obtain ⟨id, op⟩ := y
  cases hdeadline : op.deadline <;> simp [hdeadline, eq_comm]

theorem running_teardown (e : ClientError) :
    (p.teardown e).1.deadlines.running = p.deadlines.running := by
  have hfold (cancel : Deadlines → Nat × Operation κ → Deadlines)
      (hcancel : ∀ ds y, (cancel ds y).running = ds.running)
      (pending : List (Nat × Operation κ)) (ds : Deadlines) :
      (pending.foldl cancel ds).running = ds.running := by
    induction pending generalizing ds with
    | nil => rfl
    | cons y pending ih => rw [List.foldl_cons, ih, hcancel]
  unfold teardown
  refine hfold _ (fun ds y => ?_) p.pending p.deadlines
  obtain ⟨id, op⟩ := y
  cases hdeadline : op.deadline <;> simp [hdeadline]

theorem Timed.of_eq (h : p.Timed) (hnumbered : q.Numbered) (hpending : q.pending = p.pending)
    (hdeadlines : q.deadlines = p.deadlines) (hstate : p.state = .closed → q.state = .closed)
    (hshut : q.state = .closed → p.state = .closed ∧ q.cell.terminal ≠ none) : q.Timed where
  numbered := hnumbered
  agrees := by simpa [timers, hpending, hdeadlines] using h.agrees
  stopped := fun hstopped => hstate (h.stopped (hdeadlines ▸ hstopped))
  shut := by
    intro hclosed
    obtain ⟨hbefore, hterminal⟩ := hshut hclosed
    exact ⟨hpending ▸ (h.shut hbefore).1, hterminal⟩

theorem Timed.of_cell_eq (h : p.Timed) (hnumbered : q.Numbered)
    (hpending : q.pending = p.pending) (hdeadlines : q.deadlines = p.deadlines)
    (hcell : q.cell = p.cell) : q.Timed := by
  refine h.of_eq hnumbered hpending hdeadlines ?_ ?_
  · simp [state, hcell]
  · intro hclosed
    have hbefore : p.state = .closed := by simpa [state, hcell] using hclosed
    simpa [hbefore, hcell] using (h.shut hbefore).2

theorem Timed.of_open (h : p.Timed) (hnumbered : q.Numbered) (hpending : q.pending = p.pending)
    (hdeadlines : q.deadlines = p.deadlines) (hp : p.state ≠ .closed) (hq : q.state ≠ .closed) :
    q.Timed :=
  h.of_eq hnumbered hpending hdeadlines (fun hclosed => absurd hclosed hp)
    fun hclosed => absurd hclosed hq

theorem timed_teardown (h : p.Timed) (e : ClientError) : (p.teardown e).1.Timed where
  numbered := (settles_teardown p e).numbered h.numbered
  agrees := by
    intro d
    rw [mem_deadlines_teardown]
    simpa [timers, teardown] using (h.agrees d).1
  stopped := by
    rw [running_teardown]
    exact h.stopped
  shut := fun hclosed => ⟨rfl, (h.shut hclosed).2⟩

theorem timed_register (h : p.Timed) (hterminal : p.cell.terminal = none) (now : Nat)
    (s : Submission κ) :
    (register { p with nextSync := p.nextSync + 1 } now p.nextSync s).Timed where
  numbered := (settles_register p now s).numbered h.numbered
  agrees := by
    intro d
    rw [mem_timers]
    have hbefore := h.agrees d
    rw [mem_timers] at hbefore
    unfold register
    cases htimeout : s.timeout with
    | none =>
      simp only [Option.map_none, hbefore, List.mem_append, List.mem_singleton, Prod.mk.injEq]
      grind
    | some timeout =>
      simp only [Option.map_some, Deadlines.mem_schedule, hbefore, List.mem_append,
        List.mem_singleton, Prod.mk.injEq]
      obtain ⟨time, id⟩ := d
      grind
  stopped := by
    intro hstopped
    refine h.stopped ?_
    unfold register at hstopped
    cases htimeout : s.timeout <;> simpa [htimeout] using hstopped
  shut := fun hclosed => absurd hterminal (h.shut hclosed).2

/-- While the clock ends the operations of `late` the timer lacks their deadlines already. -/
structure Late (late : List Nat) (p : Pipeline κ) : Prop where
  numbered : p.Numbered
  agrees : ∀ d, d ∈ p.deadlines.entries ↔ d ∈ p.timers ∧ d.id ∉ late

theorem expireAll_cons (p : Pipeline κ) (id : Nat) (ids : List Nat) :
    (p.expireAll (id :: ids)).1 = ((p.expire id).1.expireAll ids).1 := rfl

theorem mem_pending_expire {id : Nat} {y : Nat × Operation κ} :
    y ∈ (p.expire id).1.pending ↔ y ∈ p.pending ∧ y.1 ≠ id := by
  unfold expire complete
  cases hop : p.operation? id with
  | none =>
    refine (and_iff_left_of_imp fun hy hid => ?_).symm
    simpa [hid] using List.lookup_eq_none_iff.1 hop y hy
  | some op => exact mem_pending_withdraw

theorem mem_pending_expireAll {ids : List Nat} {y : Nat × Operation κ} :
    y ∈ (p.expireAll ids).1.pending ↔ y ∈ p.pending ∧ y.1 ∉ ids := by
  induction ids generalizing p with
  | nil => simp [expireAll]
  | cons id ids ih =>
    rw [expireAll_cons, ih, mem_pending_expire, List.mem_cons, not_or, and_assoc]

theorem late_expireAll {late : List Nat} (h : Late late p) {ids : List Nat} (hids : ids ⊆ late) :
    Late late (p.expireAll ids).1 := by
  induction ids generalizing p with
  | nil => exact h
  | cons id ids ih =>
    rw [expireAll_cons]
    refine ih ?_ fun y hy => hids (List.mem_cons_of_mem id hy)
    unfold expire complete
    cases hop : p.operation? id with
    | none => exact h
    | some op =>
      refine ⟨(settles_withdraw h.numbered hop (.error .endOfInput)).numbered h.numbered, ?_⟩
      intro d
      have hlate : id ∈ late := hids List.mem_cons_self
      simp only [mem_deadlines_withdraw, h.agrees, mem_timers, mem_pending_withdraw]
      constructor
      · rintro ⟨⟨⟨other, hother, htime⟩, hd⟩, -⟩
        exact ⟨⟨other, ⟨hother, fun hid => hd (hid ▸ hlate)⟩, htime⟩, hd⟩
      · rintro ⟨⟨other, ⟨hother, hid⟩, htime⟩, hd⟩
        refine ⟨⟨⟨other, hother, htime⟩, hd⟩, fun time _ heq => hid ?_⟩
        rw [heq]

theorem running_expireAll (p : Pipeline κ) (ids : List Nat) :
    (p.expireAll ids).1.deadlines.running = p.deadlines.running := by
  induction ids generalizing p with
  | nil => rfl
  | cons id ids ih =>
    rw [expireAll_cons, ih]
    unfold expire complete
    cases p.operation? id with
    | none => rfl
    | some op => exact running_withdraw

theorem mem_due_iff (h : p.Timed) {now id : Nat} {op : Operation κ} (hop : (id, op) ∈ p.pending) :
    id ∈ (p.deadlines.entries.filter (·.time ≤ now)).map (·.id) ↔
      ∃ time, op.deadline = some time ∧ time ≤ now := by
  simp only [List.mem_map, List.mem_filter, decide_eq_true_eq, h.agrees, mem_timers]
  constructor
  · rintro ⟨d, ⟨⟨other, hother, htime⟩, hdue⟩, rfl⟩
    obtain rfl := h.numbered.eq_of_mem hop hother
    exact ⟨d.time, htime, hdue⟩
  · rintro ⟨time, htime, hdue⟩
    exact ⟨⟨time, id⟩, ⟨⟨op, hop, htime⟩, hdue⟩, rfl⟩

theorem late_service (h : p.Timed) (hrunning : p.deadlines.running = true) (now : Nat) :
    Late (p.deadlines.service now).2
      { p with deadlines := (p.deadlines.service now).1 } where
  numbered := ⟨h.numbered.sorted, h.numbered.lt_nextSync⟩
  agrees := by
    intro d
    rw [Deadlines.service_of_running hrunning, mem_timers]
    simp only [List.mem_filter, decide_eq_true_eq, h.agrees, mem_timers]
    constructor
    · rintro ⟨⟨op, hop, htime⟩, hlater⟩
      refine ⟨⟨op, hop, htime⟩, ?_⟩
      rw [mem_due_iff h hop]
      rintro ⟨time, hsame, hdue⟩
      obtain rfl : d.time = time := Option.some.inj (htime.symm.trans hsame)
      omega
    · rintro ⟨⟨op, hop, htime⟩, hlate⟩
      rw [mem_due_iff h hop] at hlate
      refine ⟨⟨op, hop, htime⟩, ?_⟩
      by_contra hdue
      exact hlate ⟨d.time, htime, by omega⟩

theorem tick_of_stopped (h : p.Timed) (hstopped : p.deadlines.running = false) (now : Nat) :
    p.pending = [] ∧ p.tick now = (p, .silent) := by
  refine ⟨(h.shut (h.stopped hstopped)).1, ?_⟩
  simp [tick, Deadlines.service, hstopped, expireAll]

theorem mem_pending_tick (h : p.Timed) (now : Nat) {y : Nat × Operation κ} :
    y ∈ (p.tick now).1.pending ↔
      y ∈ p.pending ∧ ∀ time, y.2.deadline = some time → now < time := by
  by_cases hrunning : p.deadlines.running = true
  · rw [tick, Deadlines.service_of_running hrunning, mem_pending_expireAll]
    refine and_congr_right fun hy => ?_
    rw [mem_due_iff h hy]
    simp
  · obtain ⟨hnone, htick⟩ := tick_of_stopped h (by simpa using hrunning) now
    simp [htick, hnone]

theorem timed_tick (h : p.Timed) (now : Nat) : (p.tick now).1.Timed := by
  by_cases hrunning : p.deadlines.running = true
  · have hlate := late_expireAll (late_service h hrunning now) (List.Subset.refl _)
    have honly := onlyEnds_tick p now
    have hsame : (p.tick now).1.state = p.state := by simp [state, honly.cell]
    exact
      { numbered := hlate.numbered
        agrees := by
          intro d
          refine (hlate.agrees d).trans (and_iff_left_of_imp fun hd => ?_)
          obtain ⟨op, hop, -⟩ := mem_timers.1 hd
          exact (mem_pending_expireAll.1 hop).2
        stopped := by
          intro hstopped
          simp [tick, running_expireAll, hrunning] at hstopped
        shut := by
          intro hclosed
          obtain ⟨hnone, hterminal⟩ := h.shut (hsame ▸ hclosed)
          refine ⟨List.eq_nil_iff_forall_not_mem.2 fun y hy => ?_, by rwa [honly.cell]⟩
          simpa [hnone] using ((mem_pending_tick h now).1 hy).1 }
  · obtain ⟨-, htick⟩ := tick_of_stopped h (by simpa using hrunning) now
    rwa [htick]

theorem outcomes_expireAll {ids : List Nat} {tag : κ} {outcome : Outcome}
    (hmem : (tag, outcome) ∈ (p.expireAll ids).2.outcomes) :
    outcome = .error (.timeout .operation) ∧
      ∃ id op, id ∈ ids ∧ (id, op) ∈ p.pending ∧ op.tag = tag := by
  induction ids generalizing p with
  | nil => simp [expireAll, Report.silent, Report.outcomes] at hmem
  | cons id ids ih =>
    rw [show (p.expireAll (id :: ids)).2 = (p.expire id).2.andThen ((p.expire id).1.expireAll ids).2
      from rfl, Report.outcomes_andThen, List.mem_append] at hmem
    cases hmem with
    | inl hfirst =>
      unfold expire complete at hfirst
      cases hop : p.operation? id with
      | none => simp [hop, Report.silent, Report.outcomes] at hfirst
      | some op =>
        obtain ⟨rfl, rfl⟩ : tag = op.tag ∧ outcome = .error (.timeout .operation) := by
          simpa [hop, Report.ended, Report.outcomes] using hfirst
        exact ⟨rfl, id, op, List.mem_cons_self, mem_of_operation? hop, rfl⟩
    | inr hrest =>
      obtain ⟨rfl, other, op, hother, hop, htag⟩ := ih hrest
      exact ⟨rfl, other, op, List.mem_cons_of_mem id hother, (mem_pending_expire.1 hop).1, htag⟩

theorem outcomes_tick (h : p.Timed) {now : Nat} {tag : κ} {outcome : Outcome}
    (hmem : (tag, outcome) ∈ (p.tick now).2.outcomes) :
    outcome = .error (.timeout .operation) ∧
      ∃ id op time, (id, op) ∈ p.pending ∧ op.tag = tag ∧ op.deadline = some time ∧
        time ≤ now := by
  by_cases hrunning : p.deadlines.running = true
  · rw [tick, Deadlines.service_of_running hrunning] at hmem
    obtain ⟨rfl, id, op, hid, hop, htag⟩ := outcomes_expireAll hmem
    obtain ⟨time, htime, hdue⟩ := (mem_due_iff h hop).1 hid
    exact ⟨rfl, id, op, time, hop, htag, htime, hdue⟩
  · obtain ⟨-, htick⟩ := tick_of_stopped h (by simpa using hrunning) now
    simp [htick, Report.silent, Report.outcomes] at hmem

theorem Part.pending (h : Part x p r q) (hp : p.Timed) {y : Nat × Operation κ}
    (hy : y ∈ q.pending) :
    y ∈ p.pending ∨ ∃ now fault s, x = .submit now fault s ∧ y.2.tag = s.tag ∧
      y.2.deadline = s.timeout.map (now + ·) := by
  cases h with
  | failed hsocket he h => simp [teardown] at hy
  | closed hx h => simp [teardown] at hy
  | @registered now fault s hx h =>
    rcases List.mem_append.1 hy with hy | hy
    · exact .inl hy
    · obtain rfl := List.mem_singleton.1 hy
      exact .inr ⟨now, fault, s, hx, rfl, rfl⟩
  | ended h ho => exact .inl (mem_pending_withdraw.1 hy).1
  | expired hx h => exact .inl (mem_pending_withdraw.1 hy).1
  | @ticked now hx => exact .inl ((mem_pending_tick hp now).1 hy).1
  | changed hcell hpending => exact .inl (hpending ▸ hy)
  | _ => exact .inl hy

theorem Part.timed (h : Part x p r q) (hp : p.Timed) : q.Timed := by
  have hsame (q : Pipeline κ) (hpending : q.pending = p.pending) (hnext : q.nextSync = p.nextSync) :
      q.Numbered := by
    have hentries : q.entries = p.entries := by simp [entries, hpending]
    exact (Settles.of_eq (r := .silent) hentries hnext rfl rfl).numbered hp.numbered
  cases h with
  | supervised hx h =>
    exact hp.of_open (hsame _ rfl rfl) rfl rfl (by simp [h]) Lifecycle.State.noConfusion
  | sought hx h =>
    exact hp.of_open (hsame _ rfl rfl) rfl rfl (by simp [h]) Lifecycle.State.noConfusion
  | begun hx h =>
    have hopen : p.state ≠ .closed := by simp [h]
    exact hp.of_open (hsame _ rfl rfl) rfl rfl hopen hopen
  | attached hx h =>
    have hopen : p.state ≠ .closed := by simp [h]
    exact hp.of_open (hsame _ rfl rfl) rfl rfl hopen hopen
  | detached hx h =>
    have hopen : p.state ≠ .closed := by simp [h]
    exact hp.of_open (hsame _ rfl rfl) rfl rfl hopen hopen
  | @started generation loop s hx h =>
    obtain ⟨hopen, -, hup⟩ := Lifecycle.open_of_afterStart h
    exact hp.of_open (hsame _ rfl rfl) rfl rfl hopen hup
  | @failed e hsocket he h =>
    have hcell : Timed { p with cell := p.cell.enter .reconnecting (some e) } :=
      hp.of_open (hsame _ rfl rfl) rfl rfl h Lifecycle.State.noConfusion
    exact timed_teardown hcell e
  | @closed e hx h =>
    exact
      { numbered := ⟨List.Pairwise.nil, by simp [entries, teardown]⟩
        agrees := by simp [Deadlines.stop, timers, teardown]
        stopped := fun _ => rfl
        shut := fun _ => ⟨rfl, by simp [teardown, Lifecycle.Cell.enter]⟩ }
  | @refused now fault s e hx he =>
    have hnumbered := (settles_refused p s.tag (.error e)).numbered hp.numbered
    exact hp.of_cell_eq hnumbered rfl rfl rfl
  | @registered now fault s hx h => exact timed_register hp h now s
  | ended h ho => exact timed_withdraw hp h
  | expired hx h => exact timed_withdraw hp h
  | ticked hx => exact timed_tick hp _
  | wrote h => exact hp
  | changed hcell hpending hnext hdeadlines hsocket =>
    exact hp.of_cell_eq (hsame _ hpending hnext) hpending hdeadlines hcell

theorem Parts.timed (h : Parts x p r q) (hp : p.Timed) : q.Timed := by
  induction h with
  | none p => exact hp
  | more first _ ih => exact ih (first.timed hp)

theorem timed_step (h : p.Timed) (x : Event κ) : (p.step x).1.Timed := (parts_step p x).timed h

theorem Parts.pending (h : Parts x p r q) (hp : p.Timed) {y : Nat × Operation κ}
    (hy : y ∈ q.pending) :
    y ∈ p.pending ∨ ∃ now fault s, x = .submit now fault s ∧ y.2.tag = s.tag ∧
      y.2.deadline = s.timeout.map (now + ·) := by
  induction h with
  | none p => exact .inl hy
  | more first _ ih =>
    cases ih (first.timed hp) hy with
    | inl hmid => exact first.pending hp hmid
    | inr hnew => exact .inr hnew

def Event.IsTimer : Event κ → Prop
  | .signal (.clock _) => True
  | .signal (.expired _) => True
  | _ => False

theorem Part.terminal (h : Part x p r q)
    (hq : q.cell.terminal = some (.timeout .operation)) :
    p.cell.terminal = some (.timeout .operation) ∨ x.Brings (.timeout .operation) := by
  cases h with
  | @started generation loop s hx h =>
    refine .inl ?_
    change (if s.isAlive then none else p.cell.terminal) = _ at hq
    split at hq
    · cases hq
    · exact hq
  | @failed e hsocket he h =>
    obtain rfl : e = .timeout .operation := Option.some.inj hq
    exact .inr (he.resolve_left fun hne => hne rfl)
  | @closed e hx h =>
    obtain rfl : e = .timeout .operation := Option.some.inj hq
    rw [hx]
    exact .inr rfl
  | @ticked now hx => exact .inl ((onlyEnds_tick p now).cell ▸ hq)
  | changed hcell => exact .inl (hcell ▸ hq)
  | _ => exact .inl hq

theorem Parts.terminal (h : Parts x p r q)
    (hq : q.cell.terminal = some (.timeout .operation)) :
    p.cell.terminal = some (.timeout .operation) ∨ x.Brings (.timeout .operation) := by
  induction h with
  | none p => exact .inl hq
  | more first _ ih =>
    cases ih hq with
    | inl hmid => exact first.terminal hmid
    | inr hbrought => exact .inr hbrought

theorem message_of_frameOf {message : Except ClientError Message} {sync : Nat} {e : ClientError}
    (h : frameOf message sync = .error e) (he : ∀ error, e ≠ .codec error) :
    message = .error e := by
  unfold frameOf at h
  split at h
  · simpa using h
  · split at h
    · cases h
    · simp only [Except.error.injEq] at h
      exact absurd h.symm (he _)

theorem outcomes_teardown (p : Pipeline κ) (e : ClientError) :
    (p.teardown e).2.outcomes = p.pending.map fun y => (y.2.tag, .error e) := by
  simp [teardown, Report.outcomes]

/-- Without a timer nobody is told that the time of an operation is over, unless the event says so
itself, or a submission meets such an error. -/
theorem Part.untimed (h : Part x p r q) (hx : ¬ x.IsTimer)
    (hbrings : ¬ x.Brings (.timeout .operation))
    (hsubmit : ∀ now fault s, x = .submit now fault s →
      s.message ≠ .error (.timeout .operation) ∧ p.cell.terminal ≠ some (.timeout .operation))
    (tag : κ) : (tag, .error (.timeout .operation)) ∉ r.outcomes := by
  cases h with
  | @failed e hsocket he h =>
    have hne : .timeout .operation ≠ e := by
      rintro rfl
      exact he.elim (fun h => h rfl) hbrings
    simp [Report.outcomes_andThen, outcomes_teardown, hne.symm]
  | @closed e hx' h =>
    have hne : .timeout .operation ≠ e := by
      rintro rfl
      exact hbrings (hx' ▸ rfl)
    simp [Report.outcomes_andThen, outcomes_teardown, hne.symm]
  | @refused now fault s e hx' he =>
    obtain ⟨hmessage, hterminal⟩ := hsubmit now fault s hx'
    have hne : .timeout .operation ≠ e := by
      rintro rfl
      cases he with
      | inl hleft => exact hterminal hleft
      | inr hframe => exact hmessage (message_of_frameOf hframe (by simp))
    simp [hne]
  | ended h ho => simp [ho.symm]
  | expired hx' h => exact absurd (hx' ▸ trivial) hx
  | ticked hx' => exact absurd (hx' ▸ trivial) hx
  | _ => simp

theorem Parts.untimed (h : Parts x p r q) (hx : ¬ x.IsTimer)
    (hbrings : ¬ x.Brings (.timeout .operation))
    (hsubmit : ∀ now fault s, x = .submit now fault s →
      s.message ≠ .error (.timeout .operation) ∧ p.cell.terminal ≠ some (.timeout .operation))
    (tag : κ) : (tag, .error (.timeout .operation)) ∉ r.outcomes := by
  induction h with
  | none p => simp
  | more first _ ih =>
    rw [Report.outcomes_andThen, List.mem_append, not_or]
    refine ⟨first.untimed hx hbrings hsubmit tag, ih fun now fault s hs => ?_⟩
    obtain ⟨hmessage, hterminal⟩ := hsubmit now fault s hs
    exact ⟨hmessage, fun hleft => (first.terminal hleft).elim hterminal hbrings⟩

end Pipeline
end TupleClient
