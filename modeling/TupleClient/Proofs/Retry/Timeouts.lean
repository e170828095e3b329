import TupleClient.Proofs.Retry.Deadlines

/-!
Who is told that the time of an operation is over. That needs a deadline that has passed, or an
error from outside that says so and is the matter of this operation: its connection broke with it,
the catalog that it waited for could not be read in time, or the client was closed for it.
-/
namespace TupleClient.Retry

variable {κ : Type}

abbrev overtime : ClientError := .timeout .operation

/-- The error is what operations meet from now on. -/
def Incident.Breaks : Incident κ → ClientError → Prop
  | .event (.signal (.closed reason)), e => reason = e
  | .event (.signal (.broken _ reason)), e => reason = e
  | .lost _ reason, e => reason = e
  | _, _ => False

/-- The error ends what is in flight. -/
def Incident.Drops : Incident κ → ClientError → Prop
  | .event (.signal (.broken _ reason)), e => reason = e
  | .torn reason, e => reason = e
  | _, _ => False

def Incident.plains : Incident κ → List κ
  | .event (.plain _ _ _ _ tag) => [tag]
  | _ => []

/-- A timer calls for one operation, and the time of that one is over. -/
def Incident.Due (r : Retry κ) (t : Nat) : Incident κ → Prop
  | .event (.expired id) =>
    ∀ e ∈ r.parked, e.id = id → ∃ time, e.deadline = some time ∧ time ≤ t
  | .event (.signal (.expired id)) =>
    ∀ op, r.pipeline.operation? id = some op → ∃ time, op.deadline = some time ∧ time ≤ t
  | _ => True

/-- Nothing that ends operations comes in: no signal, no call of a timer for one operation, and no
refresh that was not in time. -/
def Incident.IsQuiet : Incident κ → Prop
  | .event (.signal _) => False
  | .event (.expired _) => False
  | .event e => e.missed? ≠ some overtime
  | _ => False

variable {i : Incident κ} {n : Nat} {x y : Stand κ} {log notes : List (Note κ)}
  {os : List (Order κ)} {report last : Report κ} {r : Retry κ} {p q : Pipeline (Owner κ)} {t : Nat}
  {left : Prop} {blames : Order κ → Prop} {plain : κ → Prop}

theorem meets_of_isQuiet (h : i.IsQuiet) (p : Pipeline (Owner κ)) : meets p i = (p, .silent) := by
  unfold Incident.IsQuiet at h
  split at h
  · exact h.elim
  · rfl
  · rename_i e hsignal _
    cases e with
    | signal s => exact absurd rfl (hsignal s)
    | _ => rfl
  · exact h.elim

/-- Whoever is told that the time is over has a deadline that has passed, or tries only once, or is
to blame the error that came in. -/
def Excused (blames : Order κ → Prop) (plain : κ → Prop) (os : List (Order κ)) (t : Nat)
    (report : Report κ) : Prop :=
  ∀ tag, (tag, .error overtime) ∈ report.outcomes → plain tag ∨
    ∃ o ∈ os, o.tag = tag ∧ (blames o ∨ ∃ time, o.deadline = some time ∧ time ≤ t)

theorem Excused.andThen (h : Excused blames plain os t report)
    (g : Excused blames plain os t last) :
    Excused blames plain os t (report.andThen last) := by
  intro tag htag
  rw [Report.outcomes_andThen, List.mem_append] at htag
  exact htag.elim (h tag) (g tag)

/-- Where such an error is left for those who are sent it was there before, and where it has come
back or is the reason of the end, the operation is to blame it. -/
structure Fair (left : Prop) (blames : Order κ → Prop) (plain : κ → Prop) (t : Nat) (x : Stand κ) :
    Prop where
  terminal : x.retry.pipeline.cell.terminal = some overtime → left
  ending : .entered .closed ∈ x.back → x.retry.pipeline.cell.terminal = some overtime →
    ∀ o, blames o
  closed : x.retry.closed = some overtime → ∀ o, blames o
  back : ∀ e, .ended (.entry e) (.error overtime) ∈ x.back → blames e.order ∨
    ∃ time, e.deadline = some time ∧ time ≤ t
  plain : ∀ o ∈ owners x.retry.pipeline ++ returned x.back, ∀ tag, o = .plain tag → plain tag

theorem message_ne_overtime (request : Request) (catalog : Option Catalog.Snapshot) :
    request.message catalog ≠ .error overtime := by
  unfold Request.message
  repeat' split
  all_goals simp

theorem Fair.of_pipeline_eq (h : Fair left blames plain t x)
    (hpipeline : y.retry.pipeline = x.retry.pipeline)
    (hclosed : y.retry.closed = x.retry.closed) (hback : y.back ⊆ x.back)
    (hreturned : returned y.back ⊆ returned x.back) : Fair left blames plain t y where
  terminal := hpipeline ▸ h.terminal
  ending hentered := hpipeline ▸ h.ending (hback hentered)
  closed := hclosed ▸ h.closed
  back e he := h.back e (hback he)
  plain o ho := by
    rw [hpipeline] at ho
    refine h.plain o ?_
    rw [List.mem_append] at ho ⊢
    exact ho.imp_right fun hmem => hreturned hmem

theorem Fair.same (h : Fair left blames plain t x)
    (hpipeline : y.retry.pipeline = x.retry.pipeline)
    (hclosed : y.retry.closed = x.retry.closed) (hback : y.back = x.back) :
    Fair left blames plain t y :=
  h.of_pipeline_eq hpipeline hclosed (by simp [hback]) (by simp [hback])

theorem Fair.absorb {alive after replaying : Bool} {before out : List (Entry κ)}
    {rep : Report (Owner κ)} {given : List (Nat × Owner κ)}
    (h : Fair left blames plain t ⟨r, alive, [], before, replaying⟩)
    (hsettles : Pipeline.Settles r.pipeline given q rep)
    (hends : Pipeline.Ends (fun e => e = overtime → ∀ o, blames o) r.pipeline q rep)
    (hgiven : ∀ o ∈ given.map Prod.snd, ∀ tag, o = .plain tag → plain tag)
    (hterminal : q.cell.terminal = some overtime → left)
    (hback : ∀ e, (.entry e, .error overtime) ∈ rep.outcomes → blames e.order ∨
      ∃ time, e.deadline = some time ∧ time ≤ t) :
    Fair left blames plain t
      ⟨{ r with pipeline := q }, after, rep.happenings, out, replaying⟩ where
  terminal := hterminal
  ending := by
    intro hentered hover
    obtain ⟨-, reason, hwhy, hreason⟩ := hends.brought (Report.mem_states.2 hentered)
    exact hwhy (Option.some.inj (hreason.symm.trans hover))
  closed := h.closed
  back e he := hback e (Report.mem_outcomes.2 he)
  plain := by
    have hall := forall_of_settles hsettles
      (fun o ho => h.plain o (List.mem_append_left _ ho)) hgiven
    exact hall

theorem Fair.submit {alive after replaying : Bool} {before out : List (Entry κ)} {now : Nat}
    {fault : Option String} {s : Submission (Owner κ)}
    (h : Fair left blames plain t ⟨r, alive, [], before, replaying⟩)
    (hnumbered : r.pipeline.Numbered) (hmessage : s.message ≠ .error overtime)
    (hgiven : ∀ tag, s.tag = .plain tag → plain tag)
    (hmet : left → ∀ e, s.tag = .entry e → blames e.order) :
    Fair left blames plain t
      ⟨{ r with pipeline := (r.pipeline.submit now fault s).1 }, after,
        (r.pipeline.submit now fault s).2.1.happenings, out, replaying⟩ := by
  have hparts := Pipeline.parts_submit r.pipeline now fault s
  have hnone : ¬ (Pipeline.Event.submit now fault s).Brings overtime := id
  refine h.absorb (Pipeline.settles_submit hnumbered now fault s)
    (Pipeline.ends_submit r.pipeline now fault s) ?_
    (fun heq => h.terminal ((hparts.terminal heq).resolve_right hnone)) fun e he => ?_
  · simpa [eq_comm] using hgiven
  · by_cases hterminal : r.pipeline.cell.terminal = some overtime
    · have htag : .entry e = s.tag := by
        simpa [Pipeline.submit, hterminal] using he
      exact .inl (hmet (h.terminal hterminal) e htag.symm)
    · refine absurd he (hparts.untimed id hnone ?_ _)
      rintro _ _ _ ⟨⟩
      exact ⟨hmessage, hterminal⟩

theorem owners_of_outcomes {rep : Report (Owner κ)} {o : Owner κ} {outcome : Outcome}
    (hsettles : Pipeline.Settles p [] q rep) (h : (o, outcome) ∈ rep.outcomes) : o ∈ owners p := by
  refine forall_of_settles hsettles (fun _ ho => ho) (by simp) o (List.mem_append_right _ ?_)
  exact List.mem_map.2 ⟨_, h, rfl⟩

theorem outcomes_signal {s : Signal}
    (hpunctual : Punctual os log ⟨r, false, [], [], false⟩)
    (hdrops : (Incident.event (.signal s) : Incident κ).Drops overtime →
      ∀ e, .entry e ∈ owners r.pipeline → blames e.order)
    (hclosed : s = .closed overtime → ∀ o, blames o) (hnow : ∀ now, s = .clock now → now ≤ t)
    (hdue : (Incident.event (.signal s)).Due r t) {e : Entry κ}
    (he : (.entry e, .error overtime) ∈ (r.pipeline.signal s).2.outcomes) :
    blames e.order ∨ ∃ time, e.deadline = some time ∧ time ≤ t := by
  have howner := owners_of_outcomes (Pipeline.settles_signal hpunctual.timed.numbered s) he
  by_cases htimer : (Pipeline.Event.signal s : Pipeline.Event (Owner κ)).IsTimer
  · cases s with
    | clock now =>
      obtain ⟨-, id, op, time, hop, htag, htime, hpassed⟩ :=
        Pipeline.outcomes_tick hpunctual.timed he
      have hsame := hpunctual.flying id op e hop htag
      exact .inr ⟨time, hsame.symm.trans htime, Nat.le_trans hpassed (hnow now rfl)⟩
    | expired id =>
      rw [Pipeline.signal, Pipeline.expire, Pipeline.complete] at he
      cases hop : r.pipeline.operation? id with
      | none => simp [hop] at he
      | some op =>
        obtain ⟨time, htime, hpassed⟩ := hdue op hop
        have htag : op.tag = .entry e := by simpa [hop, eq_comm] using he
        have hsame := hpunctual.flying id op e (Pipeline.mem_of_operation? hop) htag
        exact .inr ⟨time, hsame.symm.trans htime, hpassed⟩
    | _ => exact htimer.elim
  · by_cases hbrings : (Pipeline.Event.signal s : Pipeline.Event (Owner κ)).Brings overtime
    · refine .inl ?_
      cases s with
      | broken generation reason => exact hdrops hbrings.symm e howner
      | closed reason => exact hclosed (congrArg Signal.closed hbrings.symm) _
      | _ => exact hbrings.elim
    · exact absurd he ((Pipeline.parts_step r.pipeline (.signal s)).untimed htimer hbrings
        (by simp) _)

theorem outcomes_lose (p : Pipeline κ) (generation : Nat) (reason : ClientError) :
    (p.lose generation reason).2.outcomes = [] := by
  unfold Pipeline.lose
  split <;> rfl

theorem terminal_meets (p : Pipeline (Owner κ)) (i : Incident κ)
    (h : (meets p i).1.cell.terminal = some overtime) :
    p.cell.terminal = some overtime ∨ i.Breaks overtime := by
  unfold meets at h
  split at h
  · rename_i s
    refine ((Pipeline.parts_step p (.signal s)).terminal h).imp_right fun hbrings => ?_
    cases s with
    | broken generation reason => exact hbrings.symm
    | closed reason => exact hbrings.symm
    | _ => exact hbrings.elim
  · exact .inl h
  · unfold Pipeline.lose at h
    split at h
    · rename_i cell hfail
      obtain ⟨-, rfl⟩ := Pipeline.enter_of_fail hfail
      exact .inr (Option.some.inj h)
    · exact .inl h
  · rw [(Pipeline.onlyEnds_complete p ..).cell] at h
    exact .inl h
  · exact .inl h

theorem Part.terminal (h : Part i n x notes report y)
    (hy : y.retry.pipeline.cell.terminal = some overtime) :
    x.retry.pipeline.cell.terminal = some overtime ∨ i.Breaks overtime := by
  have hsubmit {now : Nat} {fault : Option String} {s : Submission (Owner κ)}
      (h : (x.retry.pipeline.submit now fault s).1.cell.terminal = some overtime) :
      x.retry.pipeline.cell.terminal = some overtime :=
    ((Pipeline.parts_submit x.retry.pipeline now fault s).terminal h).resolve_right id
  cases h with
  | met => exact terminal_meets _ i hy
  | plain hi hs => exact .inl (hsubmit hy)
  | sent hnow he hs => exact .inl (hsubmit hy)
  | entered =>
    rw [pipeline_entered] at hy
    exact .inl hy
  | settled =>
    rw [pipeline_settle] at hy
    exact .inl hy
  | @unread r alive replaying event e hi he hreplaying =>
    by_cases htransient : e.isTransient = true
    · simp only [htransient, if_true] at hy
      exact .inl hy
    · simp only [htransient] at hy
      exact .inl hy
  | @unscheduled r alive replaying out e =>
    obtain ⟨deadlines, hunscheduled⟩ := unschedule_eq r e
    rw [hunscheduled] at hy
    exact .inl hy
  | expired hi =>
    rw [expire_eq] at hy
    exact .inl hy
  | ticked hi =>
    rw [tick, expireAll_eq] at hy
    exact .inl hy
  | _ => exact .inl hy

theorem Parts.terminal (h : Parts i n x notes report y)
    (hy : y.retry.pipeline.cell.terminal = some overtime) :
    x.retry.pipeline.cell.terminal = some overtime ∨ i.Breaks overtime := by
  induction h with
  | none x => exact .inl hy
  | more first _ ih => exact (ih hy).elim first.terminal .inr

theorem ends_meets {why : ClientError → Prop} {p : Pipeline (Owner κ)} (i : Incident κ)
    (hwhy : ∀ reason, i = .event (.signal (.closed reason)) → why reason) :
    Pipeline.Ends why p (meets p i).1 (meets p i).2 := by
  unfold meets
  split
  · exact Pipeline.ends_signal p _ fun reason hs => hwhy reason (hs ▸ rfl)
  · exact .of_cell_eq rfl rfl
  · unfold Pipeline.lose
    split
    · rename_i hfail
      obtain ⟨hopen, rfl⟩ := Pipeline.enter_of_fail hfail
      exact .of_enter (s := .reconnecting) hopen nofun rfl rfl
    · exact .of_cell_eq rfl rfl
  · exact Pipeline.ends_complete ..
  · exact .of_cell_eq rfl (Pipeline.states_teardown ..)

/-- To whom an error that says so comes from outside with an incident: to what is in flight on a
connection that breaks with it, to the one operation that comes back with it, to what waits for the
catalog, to whoever is sent where it was left, and to all once it is the reason of the end. -/
structure Blaming (r : Retry κ) (i : Incident κ) (blames : Order κ → Prop) : Prop where
  closed : r.closed = some overtime ∨ i = .event (.signal (.closed overtime)) → ∀ o, blames o
  dropped : i.Drops overtime → ∀ e, .entry e ∈ owners r.pipeline → blames e.order
  ended : ∀ id op e, i = .ended id (.error overtime) → r.pipeline.operation? id = some op →
    op.tag = .entry e → blames e.order
  unread : ∀ event, i = .event event → event.missed? = some overtime →
    ∀ e ∈ r.parked, isWaiting e = true → blames e.order
  met : r.pipeline.cell.terminal = some overtime → ∀ now fault s e,
    .submitted now fault s ∈ r.learned i → s.tag = .entry e → blames e.order

theorem Blaming.fair (h : Blaming r i blames)
    (hplain : ∀ tag, .plain tag ∈ owners r.pipeline → plain tag)
    (hleft : r.pipeline.cell.terminal = some overtime → left) :
    Fair left blames plain t ⟨r, false, [], [], false⟩ where
  terminal := hleft
  ending := by simp
  closed hclosed := h.closed (.inl hclosed)
  back := by simp
  plain := by
    rintro o ho tag rfl
    exact hplain tag (by simpa using ho)

theorem Blaming.fair_met (after : Bool) (h : Blaming r i blames)
    (hplain : ∀ tag, .plain tag ∈ owners r.pipeline → plain tag)
    (hpunctual : Punctual os log ⟨r, false, [], [], false⟩)
    (hnow : ∀ now, i.now? = some now → now ≤ t) (hdue : i.Due r t) :
    Fair True blames plain t
      ⟨{ r with pipeline := (meets r.pipeline i).1 }, after, (meets r.pipeline i).2.happenings,
        [], false⟩ := by
  have hsettles := settles_meets hpunctual.timed.numbered i
  refine (h.fair hplain fun _ => trivial).absorb hsettles
    (ends_meets i fun reason hi hover => h.closed (.inr (hover ▸ hi))) (by simp)
    (fun _ => trivial) fun e he => ?_
  have howner := owners_of_outcomes hsettles he
  cases i with
  | event event =>
    cases event with
    | signal s =>
      refine outcomes_signal hpunctual h.dropped (fun hs => h.closed (.inr (hs ▸ rfl))) ?_ hdue he
      rintro now rfl
      exact hnow now rfl
    | _ => simp [meets] at he
  | lost generation reason =>
    rw [meets, outcomes_lose] at he
    cases he
  | ended id outcome =>
    unfold meets Pipeline.complete at he
    cases hop : r.pipeline.operation? id with
    | none => simp [hop] at he
    | some op =>
      obtain ⟨htag, rfl⟩ : .entry e = op.tag ∧ .error overtime = outcome := by simpa [hop] using he
      exact .inl (h.ended id op e rfl hop htag.symm)
  | torn reason =>
    rw [meets, Pipeline.outcomes_teardown] at he
    obtain ⟨_, -, hsame⟩ := List.mem_map.1 he
    have hreason : reason = overtime := by simpa using congrArg Prod.snd hsame
    exact .inl (h.dropped hreason e howner)

theorem excused_quiet (rep : Report (Owner κ)) :
    Excused blames plain os t (traffic rep) := by
  simp [Excused, traffic, Report.outcomes]

theorem excused_silent : Excused blames plain os t (.silent : Report κ) := by
  simp [Excused]

theorem Punctual.excused_parked {alive replaying : Bool} {out : List (Entry κ)}
    {back : List (Happening (Owner κ))} (h : Punctual os log ⟨r, alive, back, out, replaying⟩)
    (htold : ∀ tag, (tag, .error overtime) ∈ report.outcomes →
      ∃ e ∈ r.parked, e.tag = tag ∧
        (blames e.order ∨ ∃ time, e.deadline = some time ∧ time ≤ t)) :
    Excused blames plain os t report := by
  intro tag htag
  obtain ⟨e, he, hsame, hwhy⟩ := htold tag htag
  refine .inr ⟨e.order, h.known ?_, hsame, hwhy⟩
  have hparked : e.order ∈ r.parked.map Entry.order := List.mem_map_of_mem he
  simp [Stand.orders, hparked]

theorem Fair.entered {alive after replaying : Bool} {back : List (Happening (Owner κ))}
    {out : List (Entry κ)} {s : Lifecycle.State}
    (hpunctual : Punctual os log ⟨r, alive, .entered s :: back, out, replaying⟩)
    (h : Fair left blames plain t ⟨r, alive, .entered s :: back, out, replaying⟩) :
    Fair left blames plain t ⟨(r.entered s).1, after, back, out, replaying⟩ ∧
      Excused blames plain os t (r.entered s).2 := by
  by_cases hclosed : s = .closed
  · subst hclosed
    have hreason : r.closingReason = overtime → ∀ o, blames o := by
      intro hover
      unfold closingReason at hover
      cases hterminal : r.pipeline.cell.terminal with
      | none => simp [hterminal] at hover
      | some e =>
        refine h.ending List.mem_cons_self (hterminal.trans ?_)
        simpa [hterminal] using hover
    refine ⟨?_, hpunctual.excused_parked fun tag htag => ?_⟩
    · exact
        { terminal := h.terminal
          ending := fun hentered => h.ending (List.mem_cons_of_mem _ hentered)
          closed := fun heq => hreason (Option.some.inj heq)
          back := fun e he => h.back e (List.mem_cons_of_mem _ he)
          plain := h.plain }
    · have hmem : (tag, Except.error overtime) ∈ r.failAll.2.outcomes := htag
      obtain ⟨e, he, hsame⟩ := List.mem_map.1 (Report.mem_outcomes.1 hmem)
      simp only [Happening.ended.injEq, Except.error.injEq] at hsame
      exact ⟨e, he, hsame.1, .inl (hreason hsame.2 _)⟩
  · have hkept : (r.entered s).1.pipeline = r.pipeline ∧ (r.entered s).1.closed = r.closed ∧
        (r.entered s).2 = .entered s := by
      cases s <;> first | exact absurd rfl hclosed | exact ⟨rfl, rfl, rfl⟩
    obtain ⟨hpipeline, hsame, hreport⟩ := hkept
    refine ⟨h.of_pipeline_eq hpipeline hsame (List.subset_cons_self _ _) (List.Subset.refl _), ?_⟩
    rw [hreport]
    simp [Excused]

/-- What comes back to an entry is said to be late only if it is, or by an error from outside. -/
theorem Fair.settled {alive replaying : Bool} {back : List (Happening (Owner κ))}
    {out : List (Entry κ)} {e : Entry κ} {outcome : Outcome} (he : e.order ∈ os)
    (h : Fair left blames plain t ⟨r, alive, .ended (.entry e) outcome :: back, out, replaying⟩) :
    Fair left blames plain t ⟨(r.settle alive e outcome).1, alive, back, out, replaying⟩ ∧
      Excused blames plain os t (r.settle alive e outcome).2 := by
  refine ⟨?_, ?_⟩
  · obtain hsame | ⟨error, -, -, hclosed, hparked⟩ := settle_cases (r := r) alive e outcome
    · rw [hsame]
      exact h.of_pipeline_eq rfl rfl (List.subset_cons_self _ _) (List.subset_cons_self _ _)
    · rw [hparked]
      exact h.of_pipeline_eq rfl rfl (List.subset_cons_self _ _) (List.subset_cons_self _ _)
  · intro tag htag
    cases outcome with
    | ok response => simp [settle] at htag
    | error error =>
      by_cases htransient : error.isTransient = true
      · rw [settle, if_pos htransient] at htag
        cases hclosed : r.closed with
        | none => simp [park_eq hclosed] at htag
        | some reason =>
          obtain ⟨rfl, rfl⟩ : tag = e.tag ∧ overtime = reason := by
            simpa [park_of_closed hclosed] using htag
          exact .inr ⟨e.order, he, rfl, .inl (h.closed hclosed _)⟩
      · rw [settle, if_neg htransient] at htag
        obtain ⟨rfl, rfl⟩ : tag = e.tag ∧ overtime = error := by simpa using htag
        exact .inr ⟨e.order, he, rfl, h.back e List.mem_cons_self⟩

theorem outcomes_expire {id : Nat} {tag : κ} {outcome : Outcome}
    (h : (tag, outcome) ∈ (r.expire id).2.outcomes) :
    ∃ e ∈ r.parked, e.id = id ∧ e.tag = tag := by
  unfold expire at h
  split at h
  · rename_i e hfound
    obtain ⟨rfl, -⟩ : tag = e.tag ∧ outcome = .error overtime := by simpa using h
    exact ⟨e, List.mem_of_find?_eq_some hfound, by simpa using List.find?_some hfound, rfl⟩
  · simp at h

theorem outcomes_expireAll (ids : List Nat) {tag : κ} {outcome : Outcome}
    (h : (tag, outcome) ∈ (r.expireAll ids).2.outcomes) :
    ∃ e ∈ r.parked, e.id ∈ ids ∧ e.tag = tag := by
  induction ids generalizing r with
  | nil => simp [expireAll] at h
  | cons id ids ih =>
    rw [show (r.expireAll (id :: ids)).2 = (r.expire id).2.andThen ((r.expire id).1.expireAll ids).2
      from rfl, Report.outcomes_andThen, List.mem_append] at h
    cases h with
    | inl hfirst =>
      obtain ⟨e, he, hid, htag⟩ := outcomes_expire hfirst
      exact ⟨e, he, by simp [hid], htag⟩
    | inr hrest =>
      obtain ⟨e, he, hid, htag⟩ := ih hrest
      rw [expire_eq] at he
      exact ⟨e, (List.mem_filter.1 he).1, List.mem_cons_of_mem id hid, htag⟩

theorem Punctual.excused_overdue {alive replaying : Bool} {out : List (Entry κ)} {e : Entry κ}
    {now : Nat} (h : Punctual os log ⟨r, alive, [], e :: out, replaying⟩)
    (he : remaining e.deadline now = none) (hnow : now ≤ t) :
    Excused blames plain os t (.ended e.tag (.error (.timeout .operation))) := by
  intro tag htag
  obtain rfl : tag = e.tag := by simpa using htag
  refine .inr ⟨e.order, h.known (by simp [Stand.orders]), rfl, .inr ?_⟩
  cases hdeadline : e.deadline with
  | none => simp [remaining, hdeadline] at he
  | some time =>
    refine ⟨time, hdeadline, Nat.le_trans ?_ hnow⟩
    simpa [remaining, hdeadline] using he

theorem Punctual.excused_tick {alive replaying : Bool} {out : List (Entry κ)}
    (h : Punctual os log ⟨r, alive, [], out, replaying⟩) (hdistinct : (os.map Order.id).Nodup)
    {now : Nat} (hnow : now ≤ t) : Excused blames plain os t (r.tick now).2 := by
  refine h.excused_parked fun tag htag => ?_
  obtain ⟨e, he, hid, rfl⟩ := outcomes_expireAll (r.deadlines.service now).2 htag
  have hparked : e.order ∈ os := h.known (by
    have hmem : e.order ∈ r.parked.map Entry.order := List.mem_map_of_mem he
    simp [Stand.orders, hmem])
  have hdue : ∃ d ∈ r.deadlines.entries, d.time ≤ now ∧ d.id = e.id := by
    unfold Deadlines.service at hid
    split at hid
    · simpa [and_assoc] using hid
    · simp at hid
  obtain ⟨d, hd, hpassed, hsame⟩ := hdue
  obtain ⟨o, ho, hoid, htime⟩ := h.entries d hd
  obtain rfl : o = e.order :=
    List.inj_on_of_nodup_map hdistinct ho hparked (hoid.trans hsame)
  exact ⟨e, he, rfl, .inr ⟨d.time, htime, Nat.le_trans hpassed hnow⟩⟩

theorem outcomes_failWaiting {error : ClientError} {tag : κ} {outcome : Outcome}
    (h : (tag, outcome) ∈ (r.failWaiting error).2.outcomes) :
    outcome = .error error ∧ ∃ e ∈ r.parked, isWaiting e = true ∧ e.tag = tag := by
  obtain ⟨e, he, hsame⟩ := List.mem_map.1 (Report.mem_outcomes.1 h)
  simp only [Happening.ended.injEq] at hsame
  obtain ⟨hparked, hwaiting⟩ := List.mem_filter.1 he
  exact ⟨hsame.2.symm, e, hparked, hwaiting, hsame.1⟩

theorem Fair.unread {alive replaying : Bool} {e : ClientError} (hne : e ≠ overtime)
    (h : Fair left blames plain t ⟨r, alive, [], [], replaying⟩) :
    Fair left blames plain t
        ⟨if e.isTransient then r else (r.failWaiting e).1, alive, [], [], false⟩ ∧
      Excused blames plain os t (if e.isTransient then .silent else (r.failWaiting e).2) := by
  by_cases htransient : e.isTransient = true
  · simp only [htransient, if_true]
    exact ⟨h.same rfl rfl rfl, excused_silent⟩
  · simp only [htransient]
    refine ⟨h.same rfl rfl rfl, fun tag htag => absurd ?_ hne⟩
    simpa using (outcomes_failWaiting htag).1.symm

/-- The operations of an event that is none of the kind are excused part by part. -/
theorem Part.fair (h : Part i n x notes report y) (hquiet : i.IsQuiet)
    (hnow : ∀ now, i.now? = some now → now ≤ t)
    (hmet : left → ∀ now fault s e, .submitted now fault s ∈ notes → s.tag = .entry e →
      blames e.order)
    (hplains : ∀ tag ∈ i.plains, plain tag) (hdistinct : (os.map Order.id).Nodup) (hx : Tidy x)
    (hpunctual : Punctual os log x) (hfair : Fair left blames plain t x) :
    Fair left blames plain t y ∧ Excused blames plain os t report := by
  cases h with
  | @met r alive replaying out =>
    rw [meets_of_isQuiet hquiet]
    exact ⟨hfair.same rfl rfl rfl, excused_quiet _⟩
  | @plain r alive now fault request timeout tag s hi hs =>
    refine ⟨hfair.submit hx.numbered ?_ ?_ (by simp [hs]), excused_quiet _⟩
    · rw [hs]
      exact message_ne_overtime request _
    · subst hi
      simpa [hs, Incident.plains] using hplains
  | @sent r alive replaying out now fault s e hnow he hs =>
    obtain ⟨htag, hmessage⟩ := submission?_eq_some he hs
    refine ⟨hfair.submit hx.numbered ?_ (by simp [htag])
      (fun hleft e' htag' => hmet hleft now fault s e' (by simp) htag'), excused_quiet _⟩
    rw [hmessage]
    exact message_ne_overtime _ _
  | @overdue r alive replaying out now e hnow' he =>
    exact ⟨hfair.same rfl rfl rfl, hpunctual.excused_overdue he (hnow now hnow')⟩
  | entered => exact hfair.entered hpunctual
  | @told r alive replaying back out tag outcome =>
    refine ⟨hfair.of_pipeline_eq rfl rfl (List.subset_cons_self _ _) (List.subset_cons_self _ _),
      ?_⟩
    intro other hother
    obtain ⟨rfl, -⟩ : other = tag ∧ .error overtime = outcome := by simpa using hother
    exact .inl (hfair.plain (.plain other) (by simp) other rfl)
  | @settled r alive replaying back out e outcome =>
    exact hfair.settled (hpunctual.known (by simp [Stand.orders]))
  | accepted hi hn => exact ⟨hfair.same rfl rfl rfl, excused_silent⟩
  | begun => exact ⟨hfair.same rfl rfl rfl, excused_silent⟩
  | read => exact ⟨hfair.same rfl rfl rfl, excused_silent⟩
  | @unread r alive replaying event e hi he hreplaying =>
    subst hi
    refine hfair.unread ?_
    rintro rfl
    cases event <;> first | exact hquiet.elim | exact hquiet he
  | taken => exact ⟨hfair.same rfl rfl rfl, excused_silent⟩
  | @unscheduled r alive replaying out e =>
    obtain ⟨deadlines, hunscheduled⟩ := unschedule_eq r e
    rw [hunscheduled]
    exact ⟨hfair.same rfl rfl rfl, excused_silent⟩
  | @expired r alive id hi =>
    subst hi
    exact hquiet.elim
  | @ticked r alive now hi =>
    subst hi
    refine ⟨?_, hpunctual.excused_tick hdistinct (hnow now rfl)⟩
    rw [tick, expireAll_eq]
    exact hfair.same rfl rfl rfl

theorem Parts.fair (h : Parts i n x notes report y) (hquiet : i.IsQuiet)
    (hnow : ∀ now, i.now? = some now → now ≤ t)
    (hmet : left → ∀ now fault s e, .submitted now fault s ∈ notes → s.tag = .entry e →
      blames e.order)
    (hplains : ∀ tag ∈ i.plains, plain tag) (horders : i.orders n ⊆ os)
    (hdistinct : (os.map Order.id).Nodup) (hx : Tidy x) (hpunctual : Punctual os log x)
    (hfair : Fair left blames plain t x) :
    Fair left blames plain t y ∧ Excused blames plain os t report := by
  induction h generalizing log with
  | none x => exact ⟨hfair, excused_silent⟩
  | more first _ ih =>
    obtain ⟨hmid, hfirst⟩ := first.fair hquiet hnow
      (fun hleft now fault s e hs => hmet hleft now fault s e (List.mem_append_left _ hs))
      hplains hdistinct hx hpunctual hfair
    obtain ⟨hlast, hrest⟩ := ih
      (fun hleft now fault s e hs => hmet hleft now fault s e (List.mem_append_right _ hs))
      (first.tidy hx) (first.punctual horders hx hpunctual) hmid
    exact ⟨hlast, hfirst.andThen hrest⟩

theorem Blaming.excused_absorb (h : Blaming r i blames)
    (hplain : ∀ tag, .plain tag ∈ owners r.pipeline → plain tag)
    (hnow : ∀ now, i.now? = some now → now ≤ t) (hdue : i.Due r t)
    (hdistinct : (os.map Order.id).Nodup) (horders : i.orders r.nextEntry ⊆ os)
    (hx : Tidy ⟨r, false, [], [], false⟩) (hpunctual : Punctual os log ⟨r, false, [], [], false⟩) :
    Excused blames plain os t (r.absorb (meets r.pipeline i)).2 := by
  have hmet := h.fair_met r.pipeline.state.isAlive hplain hpunctual hnow hdue
  have hpart : Part i r.nextEntry ⟨r, false, [], [], false⟩ _ _ _ := .met
  -- It is dealt with in the same way after any incident, so after one with which nothing comes in.
  have hback : Parts (.event (.resubmit 0 none)) 0
      ⟨{ r with pipeline := (meets r.pipeline i).1 }, r.pipeline.state.isAlive,
        (meets r.pipeline i).2.happenings, [], false⟩ _ _ ⟨_, _, [], [], false⟩ :=
    parts_follow r.pipeline.state.isAlive (meets r.pipeline i).2.happenings
  obtain ⟨-, htold⟩ := hback.fair (by simp [Incident.IsQuiet, Event.missed?])
    (by simp [Incident.now?, Event.now?]) (by simp [endings]) (by simp [Incident.plains])
    (by simp [Incident.orders]) hdistinct (hpart.tidy hx) (hpart.punctual horders hx hpunctual) hmet
  rw [absorb_report]
  exact (excused_quiet _).andThen htold

theorem Blaming.excused_unread {event : Event κ} (h : Blaming r (.event event) blames)
    (hevent : event.missed? = some overtime)
    (hpunctual : Punctual os log ⟨r, false, [], [], false⟩) :
    Excused blames plain os t (r.failWaiting overtime).2 := by
  refine hpunctual.excused_parked fun tag htag => ?_
  obtain ⟨-, e, he, hwaiting, hsame⟩ := outcomes_failWaiting htag
  exact ⟨e, he, hsame, .inl (h.unread event rfl hevent e he hwaiting)⟩

/-- A replay reads the catalog only if an operation waits for it, and else sends what is ready. -/
theorem Blaming.excused_replay {now : Nat} {fault : Option String}
    (h : Blaming r (.event (.replay now fault (.error overtime))) blames)
    (hplain : ∀ tag, .plain tag ∈ owners r.pipeline → plain tag) (hnow : now ≤ t)
    (hdistinct : (os.map Order.id).Nodup) (hx : Tidy ⟨r, false, [], [], false⟩)
    (hpunctual : Punctual os log ⟨r, false, [], [], false⟩) :
    Excused blames plain os t (r.replay now fault (.error overtime)).2 := by
  by_cases hneeds : ({ r with replays := r.replays - 1 } : Retry κ).needsRefresh = true
  · rw [replay, if_pos hneeds]
    exact h.excused_unread rfl hpunctual
  · have hbegun : Part (.event (.replay now fault (.error overtime))) r.nextEntry
        ⟨r, false, [], [], false⟩ _ _ ⟨{ r with replays := r.replays - 1 }, false, [], [], true⟩ :=
      .begun rfl trivial
    have hlearned : r.learned (.event (.replay now fault (.error overtime))) =
        ({ r with replays := r.replays - 1 } : Retry κ).notesOfResubmit now fault := by
      simp [learned, notes, notesOfReplay, hneeds]
    obtain ⟨after, hparts⟩ : ∃ after, Parts (.event (.resubmit now fault)) r.nextEntry
        ⟨{ r with replays := r.replays - 1 }, false, [], [], true⟩ _ _ ⟨_, after, [], [], false⟩ :=
      parts_resubmit fault rfl
    have hfair : Fair (r.pipeline.cell.terminal = some overtime) blames plain t
        ⟨r, false, [], [], false⟩ := h.fair hplain id
    rw [replay, if_neg hneeds]
    refine (hparts.fair (by simp [Incident.IsQuiet, Event.missed?])
      (by rintro _ ⟨⟩; exact hnow) (hlearned ▸ h.met) (by simp [Incident.plains])
      (by simp [Incident.orders]) hdistinct (hbegun.tidy hx)
      (hbegun.punctual (by simp [Incident.orders]) hx hpunctual) (hfair.same rfl rfl rfl)).2

theorem Blaming.excused_happen (h : Blaming r i blames)
    (hplain : ∀ tag, .plain tag ∈ owners r.pipeline → plain tag)
    (hplains : ∀ tag ∈ i.plains, plain tag) (hnow : ∀ now, i.now? = some now → now ≤ t)
    (hdue : i.Due r t) (hdistinct : (os.map Order.id).Nodup) (horders : i.orders r.nextEntry ⊆ os)
    (hx : Tidy ⟨r, false, [], [], false⟩) (hpunctual : Punctual os log ⟨r, false, [], [], false⟩) :
    Excused blames plain os t (r.happen i).2 := by
  have hfair : Fair (r.pipeline.cell.terminal = some overtime) blames plain t
      ⟨r, false, [], [], false⟩ := h.fair hplain id
  have habsorb := h.excused_absorb hplain hnow hdue hdistinct horders hx hpunctual
  have hparts (hquiet : i.IsQuiet) : Excused blames plain os t (r.happen i).2 := by
    obtain ⟨after, hparts⟩ := parts_happen r false i
    exact (hparts.fair hquiet hnow h.met hplains horders hdistinct hx hpunctual hfair).2
  cases i with
  | event event =>
    by_cases hmissed : event.missed? = some overtime
    · cases event with
      | replay now fault refreshed =>
        obtain rfl : refreshed = .error overtime := by
          cases refreshed <;> simp_all [Event.missed?]
        exact h.excused_replay hplain (hnow now rfl) hdistinct hx hpunctual
      | refreshed now fault result =>
        obtain rfl : result = .error overtime := by
          cases result <;> simp_all [Event.missed?]
        exact h.excused_unread rfl hpunctual
      | _ => cases hmissed
    · cases event with
      | signal s => exact habsorb
      | expired id =>
        refine hpunctual.excused_parked fun tag htag => ?_
        obtain ⟨e, he, hid, rfl⟩ := outcomes_expire htag
        exact ⟨e, he, rfl, .inr (hdue e he hid)⟩
      | _ => exact hparts hmissed
  | _ => exact habsorb

end TupleClient.Retry
