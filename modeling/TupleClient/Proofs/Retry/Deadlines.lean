import TupleClient.Proofs.Pipeline.Timers
import TupleClient.Proofs.Retry.Hands

/-!
The one deadline of an operation that is tried until it ends. It goes along from try to try, and
while the operation waits for the next one the timer of the retries holds it.
-/
namespace TupleClient.Retry

variable {κ : Type} {i : Incident κ} {n : Nat} {x y : Stand κ} {log notes : List (Note κ)}
  {os : List (Order κ)} {report : Report κ} {r : Retry κ} {p q : Pipeline (Owner κ)} {t : Nat}

def ordered (r : Retry κ) : List (Incident κ) → List (Order κ)
  | [] => []
  | i :: is => i.orders r.nextEntry ++ (r.happen i).1.ordered is

/-- What is handed to the pipeline at `now` for an entry is given the time that is left. -/
structure OnTime (now : Nat) (e : Entry κ) (s : Submission (Owner κ)) : Prop where
  timed : ∀ time, e.deadline = some time → now < time ∧ s.timeout = some (time - now)
  untimed : e.deadline = none → s.timeout = none

/-- The deadline of an operation is the one it came with, in the pipeline as in the timer. Once all
is closed nothing is parked. -/
structure Punctual (os : List (Order κ)) (log : List (Note κ)) (x : Stand κ) : Prop where
  known : x.orders ⊆ os
  submitted : ∀ now fault s e, .submitted now fault s ∈ log → s.tag = .entry e →
    e.order ∈ os ∧ OnTime now e s
  timed : x.retry.pipeline.Timed
  flying : ∀ id op e, (id, op) ∈ x.retry.pipeline.pending → op.tag = .entry e →
    op.deadline = e.deadline
  scheduled : x.retry.closed = none → x.retry.deadlines.running = true ∧
    ∀ e ∈ x.retry.parked, ∀ time, e.deadline = some time →
      ⟨time, e.id⟩ ∈ x.retry.deadlines.entries
  entries : ∀ d ∈ x.retry.deadlines.entries, ∃ o ∈ os, o.id = d.id ∧ o.deadline = some d.time
  shut : x.retry.closed ≠ none → x.retry.parked = []

theorem remaining_of_submission? {now : Nat} {e : Entry κ} (he : e.staged.stage = .ready)
    {s : Submission (Owner κ)} (h : r.submission? now e = some s) :
    remaining e.deadline now = some s.timeout := by
  rw [submission?, send_of_ready he] at h
  cases hremaining : remaining e.deadline now with
  | none => simp [hremaining] at h
  | some timeout =>
    simp only [hremaining, Option.some.injEq] at h
    rw [← h]

theorem onTime_of_remaining {now : Nat} {e : Entry κ} {s : Submission (Owner κ)}
    (h : remaining e.deadline now = some s.timeout) : OnTime now e s where
  timed := by
    intro time htime
    simp only [remaining, htime] at h
    by_cases hbefore : now < time
    · simp only [hbefore, if_true, Option.some.injEq] at h
      exact ⟨hbefore, h.symm⟩
    · simp [hbefore] at h
  untimed := by
    intro hnone
    simpa [remaining, hnone, eq_comm] using h

theorem OnTime.deadline {now : Nat} {e : Entry κ} {s : Submission (Owner κ)}
    (h : OnTime now e s) : s.timeout.map (now + ·) = e.deadline := by
  cases hdeadline : e.deadline with
  | none => simp [h.untimed hdeadline]
  | some time =>
    obtain ⟨hbefore, htimeout⟩ := h.timed time hdeadline
    simp only [htimeout, Option.map_some, Option.some.injEq]
    omega

theorem mem_owners {o : Owner κ} : o ∈ owners p ↔ ∃ id op, (id, op) ∈ p.pending ∧ op.tag = o := by
  simp [owners, Pipeline.entries]

theorem timed_meets (h : p.Timed) (i : Incident κ) : (meets p i).1.Timed := by
  unfold meets
  split
  · exact Pipeline.timed_step h (.signal _)
  · exact h
  · rename_i generation e
    unfold Pipeline.lose
    split
    · rename_i cell hfail
      obtain ⟨hopen, rfl⟩ := Pipeline.enter_of_fail hfail
      have hnumbered : ({ p with cell := p.cell.enter .reconnecting (some e) } :
          Pipeline (Owner κ)).Numbered := ⟨h.numbered.sorted, h.numbered.lt_nextSync⟩
      exact h.of_open hnumbered rfl rfl hopen Lifecycle.State.noConfusion
    · exact h
  · exact Pipeline.timed_complete h _ _
  · exact Pipeline.timed_teardown h _

theorem pending_meets (h : p.Timed) (i : Incident κ) {y : Nat × Operation (Owner κ)}
    (hy : y ∈ (meets p i).1.pending) : y ∈ p.pending := by
  unfold meets at hy
  split at hy
  · rename_i s
    rcases (Pipeline.parts_step p (.signal s)).pending h hy with hy | ⟨now, fault, s, hsubmit, -⟩
    · exact hy
    · cases hsubmit
  · exact hy
  · unfold Pipeline.lose at hy
    split at hy <;> exact hy
  · unfold Pipeline.complete at hy
    split at hy
    · exact (Pipeline.mem_pending_withdraw.1 hy).1
    · exact hy
  · simp [Pipeline.teardown] at hy

theorem Punctual.append (h : Punctual os log x)
    (hnotes : ∀ now fault s e, .submitted now fault s ∈ notes → s.tag = .entry e →
      e.order ∈ os ∧ OnTime now e s) : Punctual os (log ++ notes) x :=
  { h with
    submitted := by
      intro now fault s e hs
      rcases List.mem_append.1 hs with hs | hs
      · exact h.submitted now fault s e hs
      · exact hnotes now fault s e hs }

theorem Punctual.of_pipeline_eq (h : Punctual os log x) (hknown : y.orders ⊆ os)
    (hpipeline : y.retry.pipeline = x.retry.pipeline)
    (hscheduled : y.retry.closed = none → y.retry.deadlines.running = true ∧
      ∀ e ∈ y.retry.parked, ∀ time, e.deadline = some time →
        ⟨time, e.id⟩ ∈ y.retry.deadlines.entries)
    (hentries : ∀ d ∈ y.retry.deadlines.entries, d ∈ x.retry.deadlines.entries ∨
      ∃ o ∈ os, o.id = d.id ∧ o.deadline = some d.time)
    (hshut : y.retry.closed ≠ none → y.retry.parked = []) : Punctual os log y where
  known := hknown
  submitted := h.submitted
  timed := hpipeline ▸ h.timed
  flying := hpipeline ▸ h.flying
  scheduled := hscheduled
  entries d hd := (hentries d hd).elim (h.entries d) id
  shut := hshut

theorem Punctual.of_parked (h : Punctual os log x) (hknown : y.orders ⊆ os)
    (hpipeline : y.retry.pipeline = x.retry.pipeline)
    (hclosed : y.retry.closed = x.retry.closed)
    (hdeadlines : y.retry.deadlines = x.retry.deadlines)
    (hparked : y.retry.parked.Sublist x.retry.parked) : Punctual os log y := by
  refine h.of_pipeline_eq hknown hpipeline (fun hopen => ?_) (fun d hd => .inl (hdeadlines ▸ hd))
    fun hshut => ?_
  · obtain ⟨hrunning, hentries⟩ := h.scheduled (hclosed ▸ hopen)
    rw [hdeadlines]
    exact ⟨hrunning, fun e he => hentries e (hparked.subset he)⟩
  · rw [hclosed] at hshut
    exact List.sublist_nil.1 (h.shut hshut ▸ hparked)

theorem Punctual.absorb {alive after replaying : Bool} {before out : List (Entry κ)}
    {back : List (Happening (Owner κ))} (h : Punctual os log ⟨r, alive, [], before, replaying⟩)
    (hknown : Stand.orders ⟨{ r with pipeline := q }, after, back, out, replaying⟩ ⊆ os)
    (hq : q.Timed)
    (hflying : ∀ id op e, (id, op) ∈ q.pending → op.tag = .entry e → op.deadline = e.deadline) :
    Punctual os log ⟨{ r with pipeline := q }, after, back, out, replaying⟩ where
  known := hknown
  submitted := h.submitted
  timed := hq
  flying := hflying
  scheduled := h.scheduled
  entries := h.entries
  shut := h.shut

theorem mem_deadlines_schedule {d : Deadline} {e : Entry κ} :
    d ∈ (r.schedule e).deadlines.entries ↔
      d ∈ r.deadlines.entries ∨ ∃ time, e.deadline = some time ∧ d = ⟨time, e.id⟩ := by
  unfold schedule
  cases e.deadline <;> simp [or_comm]

theorem running_deadlines_schedule (e : Entry κ) :
    (r.schedule e).deadlines.running = r.deadlines.running := by
  unfold schedule
  cases e.deadline <;> simp

theorem mem_deadlines_unschedule {d : Deadline} {e : Entry κ} :
    d ∈ (r.unschedule e).deadlines.entries ↔
      d ∈ r.deadlines.entries ∧ ∀ time, e.deadline = some time → d ≠ ⟨time, e.id⟩ := by
  unfold unschedule
  cases e.deadline <;> simp

theorem running_deadlines_unschedule (e : Entry κ) :
    (r.unschedule e).deadlines.running = r.deadlines.running := by
  unfold unschedule
  cases e.deadline <;> simp

theorem punctual_settled {alive replaying : Bool} {back : List (Happening (Owner κ))}
    {out : List (Entry κ)} {e : Entry κ} {outcome : Outcome}
    (hknown : Stand.orders ⟨(r.settle alive e outcome).1, alive, back, out, replaying⟩ ⊆ os)
    (h : Punctual os log ⟨r, alive, .ended (.entry e) outcome :: back, out, replaying⟩) :
    Punctual os log ⟨(r.settle alive e outcome).1, alive, back, out, replaying⟩ := by
  obtain hsame | ⟨error, -, -, hclosed, hparked⟩ := settle_cases (r := r) alive e outcome
  · rw [hsame] at hknown ⊢
    exact h.of_parked hknown rfl rfl rfl (.refl _)
  · rw [hparked] at hknown ⊢
    refine h.of_pipeline_eq hknown rfl (fun _ => ?_) (fun d hd => ?_)
      fun hshut => absurd hclosed hshut
    · obtain ⟨hrunning, hentries⟩ := h.scheduled hclosed
      refine ⟨(running_deadlines_schedule e).trans hrunning, fun f hf time htime => ?_⟩
      rw [mem_deadlines_schedule]
      rcases List.mem_append.1 hf with hf | hf
      · exact .inl (hentries f hf time htime)
      · obtain rfl := List.mem_singleton.1 hf
        exact .inr ⟨time, htime, rfl⟩
    · refine (mem_deadlines_schedule.1 hd).imp_right ?_
      rintro ⟨time, htime, rfl⟩
      exact ⟨e.order, h.known (by simp [Stand.orders]), rfl, htime⟩

theorem punctual_submit {alive up replaying : Bool} {out left : List (Entry κ)} {now : Nat}
    {fault : Option String} {s : Submission (Owner κ)}
    (hknown : Stand.orders ⟨{ r with pipeline := (r.pipeline.submit now fault s).1 }, up,
      (r.pipeline.submit now fault s).2.1.happenings, left, replaying⟩ ⊆ os)
    (hs : ∀ e, s.tag = .entry e → e.order ∈ os ∧ OnTime now e s)
    (h : Punctual os log ⟨r, alive, [], out, replaying⟩) :
    Punctual os (log ++ [.submitted now fault s])
      ⟨{ r with pipeline := (r.pipeline.submit now fault s).1 }, up,
        (r.pipeline.submit now fault s).2.1.happenings, left, replaying⟩ := by
  refine Punctual.append ?_ ?_
  · refine h.absorb hknown (Pipeline.timed_step h.timed (.submit now fault s)) ?_
    intro id op e hop htag
    rcases (Pipeline.parts_submit r.pipeline now fault s).pending h.timed hop with
      hop | ⟨_, _, _, hsubmit, hsame, hdeadline⟩
    · exact h.flying id op e hop htag
    · cases hsubmit
      exact hdeadline.trans (hs e (hsame.symm.trans htag)).2.deadline
  · intro _ _ _ e hmem htag
    simp only [List.mem_singleton, Note.submitted.injEq] at hmem
    obtain ⟨rfl, rfl, rfl⟩ := hmem
    exact hs e htag

theorem punctual_unscheduled {alive replaying : Bool} {out : List (Entry κ)} {e : Entry κ}
    (hknown : Stand.orders ⟨r.unschedule e, alive, [], e :: out, replaying⟩ ⊆ os)
    (hx : Tidy ⟨r, alive, [], e :: out, replaying⟩)
    (h : Punctual os log ⟨r, alive, [], e :: out, replaying⟩) :
    Punctual os log ⟨r.unschedule e, alive, [], e :: out, replaying⟩ := by
  obtain ⟨deadlines, hunscheduled⟩ := unschedule_eq r e
  have hmem (d : Deadline) := mem_deadlines_unschedule (r := r) (d := d) (e := e)
  have hrunning := running_deadlines_unschedule (r := r) e
  rw [hunscheduled] at hknown hmem hrunning ⊢
  refine h.of_pipeline_eq hknown rfl (fun hopen => ?_) (fun d hd => .inl ((hmem d).1 hd).1) h.shut
  obtain ⟨hbefore, hentries⟩ := h.scheduled hopen
  refine ⟨hrunning.trans hbefore, fun f hf time htime => (hmem _).2 ⟨hentries f hf time htime, ?_⟩⟩
  intro other _ hsame
  exact hx.id_ne (o := e.order) (by simp) hf (congrArg Deadline.id hsame).symm

/-- The timer lets go of the deadlines that have come, and of the entries parked under them. -/
theorem punctual_ticked {alive replaying : Bool} {out : List (Entry κ)} {now : Nat}
    (hknown : Stand.orders ⟨(r.tick now).1, alive, [], out, replaying⟩ ⊆ os)
    (h : Punctual os log ⟨r, alive, [], out, replaying⟩) :
    Punctual os log ⟨(r.tick now).1, alive, [], out, replaying⟩ := by
  rw [tick, expireAll_eq] at hknown ⊢
  refine h.of_pipeline_eq hknown rfl (fun hopen => ?_)
    (fun d hd => .inl ((Deadlines.service_sublist _ _).subset hd)) fun hshut => ?_
  · obtain ⟨hrunning, hentries⟩ := h.scheduled hopen
    refine ⟨(Deadlines.running_service _ _).trans hrunning, fun e he time htime => ?_⟩
    simp only [Deadlines.service_of_running hrunning, List.mem_filter, decide_eq_true_eq] at he ⊢
    have hentry := hentries e he.1 time htime
    refine ⟨hentry, ?_⟩
    by_contra hdue
    refine he.2 (List.mem_map.2 ⟨⟨time, e.id⟩, ?_, rfl⟩)
    simpa [hentry] using hdue
  · have hnone : r.parked = [] := h.shut hshut
    simp [hnone]

theorem punctual_read {alive replaying : Bool} {out : List (Entry κ)} {s : Catalog.Snapshot}
    (hknown : Stand.orders ⟨(r.install s).preflightDone, alive, [], out, replaying⟩ ⊆ os)
    (h : Punctual os log ⟨r, alive, [], out, replaying⟩) :
    Punctual os log ⟨(r.install s).preflightDone, alive, [], out, replaying⟩ := by
  refine h.of_pipeline_eq hknown rfl (fun hopen => ?_) (fun d hd => .inl hd) fun hshut => ?_
  · obtain ⟨hrunning, hentries⟩ := h.scheduled hopen
    refine ⟨hrunning, fun e he => ?_⟩
    obtain ⟨f, hf, rfl⟩ := List.mem_map.1 he
    exact hentries f hf
  · have hnone : r.parked = [] := h.shut hshut
    simp [preflightDone, install, hnone]

theorem Part.punctual (h : Part i n x notes report y) (hos : i.orders n ⊆ os) (hx : Tidy x)
    (hpunctual : Punctual os log x) : Punctual os (log ++ notes) y := by
  have hknown : y.orders ⊆ os := fun o ho =>
    (List.mem_append.1 ((h.moves hx.numbered).subset ho)).elim (fun hmem => hpunctual.known hmem)
      fun hmem => hos hmem
  cases h with
  | met =>
    refine Punctual.append ?_ ?_
    · refine hpunctual.absorb hknown (timed_meets hpunctual.timed i) fun id op e hop => ?_
      exact hpunctual.flying id op e (pending_meets hpunctual.timed i hop)
    · unfold Incident.heading
      split <;> simp
  | plain hi hs =>
    refine punctual_submit hknown (fun e htag => ?_) hpunctual
    rw [hs] at htag
    cases htag
  | @sent r alive replaying out now fault s e hnow he hs =>
    obtain ⟨htag, -⟩ := submission?_eq_some he hs
    have hontime := onTime_of_remaining (remaining_of_submission? he hs)
    refine punctual_submit hknown (fun f hf => ?_) hpunctual
    obtain rfl : { e with staged := ⟨e.staged.request, .sent⟩ } = f := by
      simpa [htag] using hf
    exact ⟨hpunctual.known (by simp [Stand.orders, Entry.order]), ⟨hontime.timed, hontime.untimed⟩⟩
  | overdue hnow he =>
    rw [List.append_nil]
    exact hpunctual.of_parked hknown rfl rfl rfl (.refl _)
  | @entered r alive replaying back out s =>
    rw [List.append_nil]
    cases s with
    | closed =>
      exact hpunctual.of_pipeline_eq hknown rfl (by simp [Retry.entered, failAll])
        (by simp [Retry.entered, failAll, Deadlines.stop]) fun _ => rfl
    | _ => exact hpunctual.of_parked hknown rfl rfl rfl (.refl _)
  | told =>
    exact (hpunctual.of_parked hknown rfl rfl rfl (.refl _)).append (by simp)
  | settled => exact (punctual_settled hknown hpunctual).append (by simp)
  | accepted hi hn =>
    rw [List.append_nil]
    exact hpunctual.of_parked hknown rfl rfl rfl (.refl _)
  | begun =>
    rw [List.append_nil]
    exact hpunctual.of_parked hknown rfl rfl rfl (.refl _)
  | read => exact (punctual_read hknown hpunctual).append (by simp)
  | @unread r alive replaying event e hi he hreplaying =>
    rw [List.append_nil]
    by_cases htransient : e.isTransient = true
    · simp only [htransient, if_true] at hknown ⊢
      exact hpunctual.of_parked hknown rfl rfl rfl (.refl _)
    · simp only [htransient] at hknown ⊢
      exact hpunctual.of_parked hknown rfl rfl rfl List.filter_sublist
  | taken =>
    rw [List.append_nil]
    exact hpunctual.of_parked hknown rfl rfl rfl List.filter_sublist
  | unscheduled =>
    rw [List.append_nil]
    exact punctual_unscheduled hknown hx hpunctual
  | @expired r alive id hi =>
    rw [expire_eq] at hknown ⊢
    rw [List.append_nil]
    exact hpunctual.of_parked hknown rfl rfl rfl List.filter_sublist
  | ticked hi =>
    rw [List.append_nil]
    exact punctual_ticked hknown hpunctual

theorem Parts.punctual (h : Parts i n x notes report y) (hos : i.orders n ⊆ os) (hx : Tidy x)
    (hpunctual : Punctual os log x) : Punctual os (log ++ notes) y := by
  induction h generalizing log with
  | none x => simpa using hpunctual
  | more first _ ih =>
    rw [← List.append_assoc]
    exact ih (first.tidy hx) (first.punctual hos hx hpunctual)

theorem Punctual.mono {more : List (Order κ)} (h : Punctual os log x) (hmore : os ⊆ more) :
    Punctual more log x where
  known := fun _ ho => hmore (h.known ho)
  submitted := by
    intro now fault s e hs htag
    obtain ⟨horder, hontime⟩ := h.submitted now fault s e hs htag
    exact ⟨hmore horder, hontime⟩
  timed := h.timed
  flying := h.flying
  scheduled := h.scheduled
  entries := by
    intro d hd
    obtain ⟨o, ho, hid⟩ := h.entries d hd
    exact ⟨o, hmore ho, hid⟩
  shut := h.shut

theorem punctual_create (settings : PipelineSettings) (catalog : Option Catalog.Cache)
    (refreshes alive : Bool) :
    Punctual [] [] (⟨create settings catalog refreshes, alive, [], [], false⟩ : Stand κ) where
  known := by simp [Stand.orders, create, Pipeline.create, owners, Pipeline.entries]
  submitted := by simp
  timed := Pipeline.timed_create settings
  flying := by simp [create, Pipeline.create]
  scheduled := by simp [create, Deadlines.empty]
  entries := by simp [create, Deadlines.empty]
  shut := by simp [create]

/-- The time of no operation in the pipeline, or back from it, is over at `t`. -/
def Passed (t : Nat) (x : Stand κ) : Prop :=
  ∀ o ∈ owners x.retry.pipeline ++ returned x.back, ∀ e, o = .entry e →
    ∀ time, e.deadline = some time → t < time

theorem Passed.absorb {alive after replaying : Bool} {before out : List (Entry κ)}
    {rep : Report (Owner κ)} {given : List (Nat × Owner κ)}
    (hpassed : Passed t ⟨r, alive, [], before, replaying⟩)
    (h : Pipeline.Settles r.pipeline given q rep)
    (hgiven : ∀ o ∈ given.map Prod.snd, ∀ e, o = .entry e →
      ∀ time, e.deadline = some time → t < time) :
    Passed t ⟨{ r with pipeline := q }, after, rep.happenings, out, replaying⟩ := by
  have hflying := fun o (ho : o ∈ owners r.pipeline) => hpassed o (List.mem_append_left _ ho)
  have hall := forall_of_settles h hflying hgiven
  exact hall

theorem Part.passed (h : Part i n x notes report y) (hx : Tidy x)
    (ht : ∀ now, i.now? = some now → t ≤ now) (hpassed : Passed t x) : Passed t y := by
  cases h with
  | met => exact hpassed.absorb (settles_meets hx.numbered i) (by simp)
  | @plain r alive now fault request timeout tag s hi hs =>
    exact hpassed.absorb (Pipeline.settles_submit hx.numbered now fault s) (by simp [hs])
  | @sent r alive replaying out now fault s e hnow he hs =>
    refine hpassed.absorb (Pipeline.settles_submit hx.numbered now fault s) ?_
    have hontime := onTime_of_remaining (remaining_of_submission? he hs)
    intro o ho f hf time htime
    obtain rfl : o = s.tag := by simpa using ho
    obtain rfl : { e with staged := ⟨e.staged.request, .sent⟩ } = f := by
      simpa [(submission?_eq_some he hs).1] using hf
    exact Nat.lt_of_le_of_lt (ht now hnow) (hontime.timed time htime).1
  | @entered r alive replaying back out s =>
    intro o ho
    rw [pipeline_entered] at ho
    exact hpassed o ho
  | @settled r alive replaying back out e outcome =>
    intro o ho
    rw [pipeline_settle] at ho
    exact hpassed o (by simp only [returned_ended, List.mem_append, List.mem_cons] at ho ⊢; tauto)
  | told =>
    intro o ho
    exact hpassed o (by simp only [returned_ended, List.mem_append, List.mem_cons] at ho ⊢; tauto)
  | @unread r alive replaying event e hi he hreplaying =>
    by_cases htransient : e.isTransient = true
    · simp only [htransient, if_true]
      exact hpassed
    · simp only [htransient]
      exact hpassed
  | @unscheduled r alive replaying out e =>
    obtain ⟨deadlines, hunscheduled⟩ := unschedule_eq r e
    rw [hunscheduled]
    exact hpassed
  | @expired r alive id hi =>
    rw [expire_eq]
    exact hpassed
  | @ticked r alive now hi =>
    rw [tick, expireAll_eq]
    exact hpassed
  | _ => exact hpassed

theorem Part.served (h : Part i n x notes report y) (hpassed : Passed t x)
    (hparked : ∀ e ∈ x.retry.parked, ∀ time, e.deadline = some time → t < time) :
    ∀ e ∈ y.retry.parked, ∀ time, e.deadline = some time → t < time := by
  cases h with
  | @entered r alive replaying back out s =>
    cases s with
    | closed => simp [Retry.entered, failAll]
    | _ => exact hparked
  | @settled r alive replaying back out e outcome =>
    obtain hsame | ⟨error, -, -, -, hsettled⟩ := settle_cases (r := r) alive e outcome
    · rw [hsame]
      exact hparked
    · rw [hsettled]
      intro f hf
      rcases List.mem_append.1 hf with hf | hf
      · exact hparked f hf
      · obtain rfl := List.mem_singleton.1 hf
        exact hpassed (.entry e) (by simp) e rfl
  | @read r alive replaying s =>
    intro e he
    obtain ⟨f, hf, rfl⟩ := List.mem_map.1 he
    exact hparked f hf
  | @unread r alive replaying event e hi he hreplaying =>
    by_cases htransient : e.isTransient = true
    · simpa only [htransient, if_true] using hparked
    · simp only [htransient]
      exact fun f hf => hparked f (List.mem_filter.1 hf).1
  | taken => exact fun f hf => hparked f (List.mem_filter.1 hf).1
  | @unscheduled r alive replaying out e =>
    obtain ⟨deadlines, hunscheduled⟩ := unschedule_eq r e
    rw [hunscheduled]
    exact hparked
  | @expired r alive id hi =>
    rw [expire_eq]
    exact fun f hf => hparked f (List.mem_filter.1 hf).1
  | @ticked r alive now hi =>
    rw [tick, expireAll_eq]
    exact fun f hf => hparked f (List.mem_filter.1 hf).1
  | _ => exact hparked

theorem Parts.passed (h : Parts i n x notes report y) (hx : Tidy x)
    (ht : ∀ now, i.now? = some now → t ≤ now) (hpassed : Passed t x) : Passed t y := by
  induction h with
  | none x => exact hpassed
  | more first _ ih => exact ih (first.tidy hx) (first.passed hx ht hpassed)

theorem Parts.served (h : Parts i n x notes report y) (hx : Tidy x)
    (ht : ∀ now, i.now? = some now → t ≤ now) (hpassed : Passed t x)
    (hparked : ∀ e ∈ x.retry.parked, ∀ time, e.deadline = some time → t < time) :
    ∀ e ∈ y.retry.parked, ∀ time, e.deadline = some time → t < time := by
  induction h with
  | none x => exact hparked
  | more first _ ih =>
    exact ih (first.tidy hx) (first.passed hx ht hpassed) (first.served hpassed hparked)

theorem passed_clock {alive after : Bool}
    (h : Punctual os log ⟨r, alive, [], [], false⟩) (now : Nat) :
    Passed now ⟨(r.signal (.clock now)).1, after, [], [], false⟩ := by
  rintro o ho e rfl time htime
  rw [returned_nil, List.append_nil, signal, pipeline_absorb, Pipeline.signal] at ho
  obtain ⟨id, op, hop, htag⟩ := mem_owners.1 ho
  obtain ⟨hbefore, hlater⟩ := (Pipeline.mem_pending_tick h.timed now).1 hop
  exact hlater time ((h.flying id op e hbefore htag).trans htime)

theorem served_tick {alive : Bool} (h : Punctual os log ⟨r, alive, [], [], false⟩) (now : Nat) :
    ∀ e ∈ (r.tick now).1.parked, ∀ time, e.deadline = some time → now < time := by
  intro e he time htime
  rw [tick, expireAll_eq] at he
  obtain ⟨hparked, hkept⟩ := List.mem_filter.1 he
  have hopen : r.closed = none := by
    by_contra hclosed
    rw [h.shut hclosed] at hparked
    cases hparked
  obtain ⟨hrunning, hentries⟩ := h.scheduled hopen
  by_contra hdue
  have hentry := hentries e hparked time htime
  simp only [Deadlines.service_of_running hrunning, decide_eq_true_eq] at hkept
  refine hkept (List.mem_map.2 ⟨⟨time, e.id⟩, ?_, rfl⟩)
  simpa [hentry] using hdue

end TupleClient.Retry
