import Mathlib.Algebra.Order.BigOperators.Group.List
import TupleClient.Proofs.Client.Fetching
import TupleClient.Proofs.Client.Returning

/-!
The opening of a client comes to its end, when time goes on and everybody who works in the client
has turns. Only a server that keeps the connection and does not answer can hold it up, and that only
where operations have no end of their time.
-/
namespace TupleClient.Client

open Catalog (Answer Course View)

variable {κ : Type} {limit till : Nat} {c : Client κ} {run : Nat → Move κ}

/-- The first moves of a run. -/
def movesOf (run : Nat → Move κ) (n : Nat) : List (Move κ) := (List.range n).map run

theorem movesOf_add (run : Nat → Move κ) (n d : Nat) :
    movesOf run (n + d) = movesOf run n ++ movesOf (fun k => run (n + k)) d := by
  rw [movesOf, List.range_add, List.map_append, List.map_map]
  rfl

theorem movesOf_succ (run : Nat → Move κ) (n : Nat) :
    movesOf run (n + 1) = movesOf run n ++ [run n] := movesOf_add run n 1

theorem movesOf_split {d : Nat} {before later : List (Move κ)} {m : Move κ}
    (h : movesOf run d = before ++ m :: later) :
    movesOf run before.length = before ∧ run before.length = m := by
  have hlength := congrArg List.length h
  obtain rfl : d = before.length + 1 + later.length := by
    simp [movesOf] at hlength
    omega
  rw [movesOf_add, movesOf_succ, List.append_assoc] at h
  obtain ⟨hbefore, hrest⟩ := List.append_inj h (by simp [movesOf])
  exact ⟨hbefore, (List.cons.inj hrest).1⟩

/-- A client in a run, after so many moves. -/
def during (c : Client κ) (run : Nat → Move κ) (n : Nat) : Client κ := c.after (movesOf run n)

theorem during_succ (c : Client κ) (run : Nat → Move κ) (n : Nat) :
    c.during run (n + 1) = ((c.during run n).act (run n)).client := by
  rw [during, movesOf_succ, after_concat]
  rfl

/-- A run that serves the opening: the clock goes on for ever, whoever opens the client looks again
and again, and so does whoever waits for an outcome. -/
structure Fair (run : Nat → Move κ) : Prop where
  served : ∀ n, (run n).IsServed
  time : ∀ n till, ∃ k ≥ n, ∃ now, till ≤ now ∧ run k = .event now .clock
  looks : ∀ n, ∃ k ≥ n, ∃ now, run k = .proceed now .opening
  fetches : ∀ n, ∃ k ≥ n, ∃ now, run k = .proceed now (.waiter 0)

theorem Fair.counts (h : Fair run) (n j : Nat) :
    ∃ d, j < (movesOf (fun k => run (n + k)) d).countP Move.fetchesFirst := by
  have hmore (d : Nat) : ∃ d', (movesOf (fun k => run (n + k)) d).countP Move.fetchesFirst <
      (movesOf (fun k => run (n + k)) d').countP Move.fetchesFirst := by
    obtain ⟨k, hk, now, hrun⟩ := h.fetches (n + d)
    obtain ⟨e, rfl⟩ := Nat.exists_eq_add_of_le hk
    refine ⟨d + (e + 1), ?_⟩
    rw [movesOf_add, movesOf_succ, List.countP_append, List.countP_append]
    simp only [← Nat.add_assoc, hrun, List.countP_cons, Move.fetchesFirst, if_true]
    omega
  induction j with
  | zero =>
    obtain ⟨d, hd⟩ := hmore 0
    exact ⟨d, Nat.zero_lt_of_lt hd⟩
  | succ j ih =>
    obtain ⟨d, hd⟩ := ih
    obtain ⟨d', hd'⟩ := hmore d
    exact ⟨d', Nat.lt_of_le_of_lt hd hd'⟩

theorem Fair.fetched (h : Fair run) {n : Nat} {x : Tag κ × Outcome}
    (hmem : x ∈ (c.during run n).ended) :
    ∃ k ≥ n, ∃ now i, run k = .proceed now (.waiter i) ∧ (c.during run k).ended[i]? = some x := by
  obtain ⟨j, hj⟩ := List.mem_iff_getElem?.1 hmem
  obtain ⟨d, hd⟩ := h.counts n j
  obtain ⟨before, now, i, later, hmoves, hfound⟩ := fetched_within hj hd
  obtain ⟨hbefore, hrun⟩ := movesOf_split hmoves
  refine ⟨n + before.length, Nat.le_add_right .., now, i, hrun, ?_⟩
  rw [during, movesOf_add, after_append, hbefore]
  exact hfound

structure Endless (limit till : Nat) (c : Client κ) (run : Nat → Move κ) : Prop where
  fair : Fair run
  isolated : c.retry.pipeline.Isolated
  progress : ∀ n, Progress limit till c (movesOf run n)
  never : ∀ n, ¬ Concluded limit till c (movesOf run n)

theorem Endless.stage (h : Endless limit till c run) (n : Nat) :
    Unread limit (c.during run n) ∧
        ((c.during run n).opening = .waiting till ∨ (c.during run n).opening = .found) ∨
      Loading limit (c.answers 0 (movesOf run n)) (c.during run n) := by
  cases h.progress n with
  | waits hu hopening htime hasked hreturns => exact .inl ⟨hu, .inl hopening⟩
  | found hu hopening hup hasked hreturns => exact .inl ⟨hu, .inr hopening⟩
  | loads hl hup hreturns => exact .inr hl
  | concluded hc hreturned => exact absurd hc (h.never n)

theorem Endless.not_opened (h : Endless limit till c run) {n : Nat} {s : Catalog.Snapshot} :
    ¬ Opened s ((c.during run n).act (run n)) := by
  intro hopened
  have hdone := hopened.opening
  rw [← during_succ] at hdone
  rcases h.stage (n + 1) with ⟨-, hopening | hopening⟩ | hl
  · cases hdone.symm.trans hopening
  · cases hdone.symm.trans hopening
  · cases hdone.symm.trans hl.opening

theorem Endless.not_refused (h : Endless limit till c run) {n : Nat} {e : ClientError} :
    ¬ Refused e ((c.during run n).act (run n)) := by
  intro hrefused
  have hdone := hrefused.opening
  rw [← during_succ] at hdone
  rcases h.stage (n + 1) with ⟨-, hopening | hopening⟩ | hl
  · cases hdone.symm.trans hopening
  · cases hdone.symm.trans hopening
  · cases hdone.symm.trans hl.opening

theorem Endless.seen (h : Endless limit till c run) :
    ∃ n, (c.during run n).opening ≠ .waiting till := by
  by_contra hnot
  have hwaits (n : Nat) : (c.during run n).opening = .waiting till := by
    by_contra hopening
    exact hnot ⟨n, hopening⟩
  obtain ⟨k, -, now, htime, hrun⟩ := h.fair.time 0 till
  obtain ⟨hu, -⟩ : Unread limit (c.during run k) ∧ _ := (h.stage k).resolve_right fun hl => by
    cases (hwaits k).symm.trans hl.opening
  have hnext := hwaits (k + 1)
  rw [during_succ] at hnext
  cases hu.outlook (hwaits k) (isolated_after h.isolated _) (h.fair.served k) with
  | waits hplain hearly => exact Nat.not_lt.2 htime (hearly now hrun)
  | found halive hunread hopening hwords => cases hopening.symm.trans hnext
  | closed hlooks hstate hterminal hrefused => exact h.not_refused hrefused
  | late hlooks halive hopen hlate hrefused => exact h.not_refused hrefused

theorem Endless.loads (hpos : 0 < limit) (h : Endless limit till c run) :
    ∃ n, (c.during run n).opening = .loading := by
  by_contra hnot
  have hunread (n : Nat) : Unread limit (c.during run n) ∧
      ((c.during run n).opening = .waiting till ∨ (c.during run n).opening = .found) :=
    (h.stage n).resolve_right fun hl => hnot ⟨n, hl.opening⟩
  obtain ⟨start, hseen⟩ := h.seen
  have hfound (d : Nat) : (c.during run (start + d)).opening = .found := by
    induction d with
    | zero => exact (hunread start).2.resolve_left hseen
    | succ d ih =>
      obtain ⟨hu, -⟩ := hunread (start + d)
      rw [← Nat.add_assoc, during_succ]
      rcases hu.plain ih (h.fair.served _) with ⟨now, hrun⟩ | hplain
      · refine absurd ⟨start + d + 1, ?_⟩ hnot
        rw [during_succ, hrun]
        exact (hu.loads hpos ih now).1.opening
      · exact (hu.alone.tends hplain).1.beside.opening.trans ih
  obtain ⟨k, hk, now, hrun⟩ := h.fair.looks start
  obtain ⟨d, rfl⟩ := Nat.exists_eq_add_of_le hk
  refine hnot ⟨start + d + 1, ?_⟩
  rw [during_succ, hrun]
  exact ((hunread _).1.loads hpos (hfound d) now).1.opening

theorem Endless.loading (h : Endless limit till c run) {n : Nat}
    (hopening : (c.during run n).opening = .loading) {k : Nat} (hk : n ≤ k) :
    Loading limit (c.answers 0 (movesOf run k)) (c.during run k) := by
  have hstage (k : Nat) (hopening : (c.during run k).opening = .loading) :
      Loading limit (c.answers 0 (movesOf run k)) (c.during run k) :=
    (h.stage k).resolve_left fun ⟨_, hother⟩ => by
      rcases hother with hwaits | hfound
      · cases hopening.symm.trans hwaits
      · cases hopening.symm.trans hfound
  refine hstage k ?_
  obtain ⟨d, rfl⟩ := Nat.exists_eq_add_of_le hk
  clear hk
  induction d with
  | zero => exact hopening
  | succ d ih =>
    have hl := hstage _ ih
    rw [← Nat.add_assoc, during_succ]
    rcases hl.act (h.fair.served (n + d)) with ⟨hnext, -⟩ | ⟨now, i, answer, result, hrun, hends⟩
    · exact hnext.opening
    · rcases hl.ends hends with ⟨s, -, hopened⟩ | ⟨e, -, hrefused⟩
      · exact absurd (hrun ▸ hopened) h.not_opened
      · exact absurd (hrun ▸ hrefused) h.not_refused

theorem Booked.heard_of_answer {number : Nat} {m : Move κ} {answer : Answer} (h : c.Booked limit)
    (hanswer : c.answer? m = some (number, answer)) : (c.heard number m).length = 1 := by
  obtain ⟨-, -, task, -, -, -, -, hfound, -⟩ := h.act_of_answer hanswer
  simp [heard, hanswer, hfound]

/-- The reading is told only so much. Then no answer comes any more. -/
theorem Endless.quiet (h : Endless limit till c run) {start : Nat}
    (hopening : (c.during run start).opening = .loading) :
    ∃ n ≥ start, ∀ k ≥ n, ∀ outcome, (.read 0, outcome) ∉ (c.during run k).ended := by
  let count (k : Nat) : Nat := (c.answers 0 (movesOf run k)).length
  have hsucc (k : Nat) : count (k + 1) = count k + ((c.during run k).heard 0 (run k)).length := by
    simp only [count, movesOf_succ, answers_concat, List.length_append]
    rfl
  have hmono : Monotone count := monotone_nat_of_le_succ fun k => by
    rw [hsucc]
    exact Nat.le_add_right ..
  have hbound {k : Nat} (hk : start ≤ k) : count k < 2 * limit := by
    obtain ⟨refresh, -, -, hunderway⟩ := (h.loading hopening hk).reading.task
    exact hunderway.length_lt
  -- From the moment when most was told, nothing is told.
  obtain ⟨n, hn, hmost⟩ : ∃ n ≥ start, ∀ k ≥ start, 2 * limit - count n ≤ 2 * limit - count k := by
    have hstart : start ∈ {k | start ≤ k} := Nat.le_refl start
    obtain ⟨n, hn, hmin⟩ :=
      WellFounded.has_min (measure fun k => 2 * limit - count k).wf {k | start ≤ k} ⟨start, hstart⟩
    exact ⟨n, hn, fun k hk => Nat.not_lt.1 (hmin k hk)⟩
  refine ⟨n, hn, fun k hk outcome hmem => ?_⟩
  obtain ⟨k', hk', now, i, hrun, hended⟩ := h.fair.fetched hmem
  have hlast : start ≤ k' := Nat.le_trans hn (Nat.le_trans hk hk')
  have hanswer : (c.during run k').answer? (run k') = some (0, outcome) := by
    simp [hrun, answer?, hended]
  have hmore := hsucc k'
  rw [(h.loading hopening hlast).alone.booked.heard_of_answer hanswer] at hmore
  have hleast := hmost (k' + 1) (Nat.le_succ_of_le hlast)
  have hlonger := hmono (Nat.le_trans hk hk')
  have hshort := hbound (k := k' + 1) (Nat.le_succ_of_le hlast)
  omega

theorem Loading.waits {reads : List (View × Answer)} (h : Loading limit reads c)
    (hnone : ∀ outcome, (.read 0, outcome) ∉ c.ended) :
    ∃ x ∈ c.retry.pipeline.pending, x.2.tag = .plain (.read 0) := by
  rcases List.mem_append.1 h.reading.asked with hended | hheld
  · obtain ⟨⟨tag, outcome⟩, hmem, hread⟩ := List.mem_map.1 hended
    obtain rfl : tag = .read 0 := hread
    exact absurd hmem (hnone outcome)
  · obtain ⟨label, hlabel, htag⟩ := List.mem_map.1 hheld
    obtain ⟨n, rfl⟩ := h.alone.bare.held label hlabel
    rw [Retry.held, h.alone.bare.parked, List.map_nil, List.append_nil] at hlabel
    obtain ⟨owner, howner, hsame⟩ := List.mem_map.1 hlabel
    rw [Retry.owners, Pipeline.entries, List.map_map] at howner
    obtain ⟨x, hx, rfl⟩ := List.mem_map.1 howner
    refine ⟨x, hx, ?_⟩
    cases hkind : x.2.tag with
    | entry e => simp [hkind, Retry.Owner.label, Retry.Entry.label] at hsame
    | plain tag =>
      simp only [Function.comp_apply, hkind, Retry.Owner.label] at hsame
      rw [(Prod.mk.inj hsame).2]
      exact congrArg _ htag

/-- The connection with this number is kept, and a read that waits over it is not answered. -/
structure Stalled (generation : Nat) (c : Client κ) : Prop where
  opening : c.opening = .loading
  state : c.state = .alive
  generation : c.retry.pipeline.cell.generation = generation
  waits : ∃ x ∈ c.retry.pipeline.pending, x.2.tag = .plain (.read 0)

structure Unanswered (c : Client κ) (run : Nat → Move κ) (n : Nat) : Prop where
  opening : (c.during run n).opening = .loading
  nothing : ∀ k ≥ n, ∀ outcome, (.read 0, outcome) ∉ (c.during run k).ended

/-- While nothing comes of the read the client only keeps up its connection. -/
theorem Endless.tends (h : Endless limit till c run) {n : Nat} (hn : Unanswered c run n)
    {k : Nat} (hk : n ≤ k) :
    Plain (c.during run k) (run k) ∧ Tends (c.during run k) (c.during run (k + 1)) := by
  have hl := h.loading hn.opening hk
  have hplain : Plain (c.during run k) (run k) := by
    refine hl.isPlain (h.fair.served k) ?_
    cases hanswer : (c.during run k).answer? (run k) with
    | none => rfl
    | some found =>
      obtain ⟨number, answer⟩ := found
      obtain ⟨now, i, task, -, hended, htask, hnumber, -⟩ := hl.alone.booked.act_of_answer hanswer
      obtain rfl : number = 0 := hnumber.symm.trans (hl.only task htask)
      exact absurd (List.mem_of_getElem? hended) (hn.nothing k hk answer)
  rw [during_succ]
  exact ⟨hplain, (hl.alone.tends hplain).1⟩

theorem Endless.fewer (h : Endless limit till c run) {n : Nat} (hn : Unanswered c run n)
    {k : Nat} (hk : n ≤ k) : Fewer (c.during run n) (c.during run k) := by
  induction k, hk using Nat.le_induction with
  | base => exact ⟨(h.loading hn.opening (Nat.le_refl n)).dated.timed, fun _ => id⟩
  | succ k hk ih => exact ih.trans ((h.tends hn hk).2.fewer ih.timed)

theorem Endless.holds (h : Endless limit till c run) {n : Nat} (hn : Unanswered c run n)
    {k : Nat} (hk : n ≤ k) :
    Pipeline.Holds (c.during run n).retry.pipeline (c.during run k).retry.pipeline := by
  induction k, hk using Nat.le_induction with
  | base => exact .refl _
  | succ k hk ih => exact ih.trans (h.tends hn hk).2.holds

/-- A read with an end of its time does not wait for ever. -/
theorem Endless.untimed (h : Endless limit till c run) {n : Nat} (hn : Unanswered c run n) :
    c.settings.operationTimeout = none := by
  by_contra htimeout
  let last := ((c.during run n).retry.pipeline.pending.filterMap (·.2.deadline)).sum
  obtain ⟨k, hk, now, htime, hrun⟩ := h.fair.time n last
  have hnext : n ≤ k + 1 := Nat.le_succ_of_le hk
  have hl := h.loading hn.opening hk
  obtain ⟨x, hx, -⟩ := (h.loading hn.opening hnext).waits (hn.nothing (k + 1) hnext)
  have hold := (h.fewer hn hnext).pending x hx
  obtain ⟨time, hdeadline⟩ : ∃ time, x.2.deadline = some time := by
    refine Option.ne_none_iff_exists'.1
      ((h.loading hn.opening (Nat.le_refl n)).dated.dated ?_ x hold)
    rwa [during, settings_after]
  have hdue : time ≤ last := List.le_sum_of_mem (List.mem_filterMap.2 ⟨x, hold, hdeadline⟩)
  -- The clock has ended all operations whose time was over.
  have hplain := (h.tends hn hk).1
  rw [hrun] at hplain
  rw [during_succ, hrun, hl.alone.act_clock hplain] at hx
  have hclocked := fewer_signal hl.dated.timed (.clock now)
  have hupkeep : Upkeep ((c.during run k).signal (.clock now)).client
      ((c.during run k).keepTime now).client := .timed (upkeep_supervised now none _)
  have hticked := (hupkeep.fewer hclocked.timed).pending x hx
  rw [pipeline_signal] at hticked
  have hlater := ((Pipeline.mem_pending_tick hl.dated.timed now).1 hticked).2 time hdeadline
  omega

/-- The only run in which the opening does not return is one in which the server keeps a connection
and leaves a read unanswered, while operations may wait for ever. -/
theorem Endless.stalls (hpos : 0 < limit) (h : Endless limit till c run) :
    c.settings.operationTimeout = none ∧
      ∃ n generation, ∀ k ≥ n, (c.during run k).Stalled generation := by
  obtain ⟨start, hstart⟩ := h.loads hpos
  obtain ⟨n, hlate, hnone⟩ := h.quiet hstart
  have hn : Unanswered c run n := ⟨(h.loading hstart hlate).opening, hnone⟩
  have hwaits {k : Nat} (hk : n ≤ k) := (h.loading hn.opening hk).waits (hnone k hk)
  have halive {k : Nat} (hk : n ≤ k) : (c.during run k).state = .alive := by
    obtain ⟨x, hx, -⟩ := hwaits hk
    by_contra hdead
    have hnothing : (c.during run k).retry.pipeline.pending = [] :=
      (isolated_after h.isolated (movesOf run k)).pending hdead
    rw [hnothing] at hx
    cases hx
  refine ⟨h.untimed hn, n, (c.during run n).retry.pipeline.cell.generation, fun k hk =>
    ⟨(h.loading hn.opening hk).opening, halive hk, ?_, hwaits hk⟩⟩
  rcases (h.holds hn hk).alive (halive (Nat.le_refl n)) with ⟨-, hsame⟩ | hnothing
  · exact hsame
  · obtain ⟨x, hx, -⟩ := hwaits hk
    rw [hnothing] at hx
    cases hx

theorem unread_start (s : Settings) (now : Nat) :
    Unread (max s.refreshAttempts 1) (start (create s now) : Turn κ).client where
  alone :=
    { booked := booked_start s now
      bare := ⟨List.forall_mem_nil _, List.forall_mem_nil _⟩
      catalog := rfl
      discovery := rfl }
  tasks := rfl
  nextTask := rfl
  dated := ⟨Pipeline.timed_step (Pipeline.timed_create s.pipeline) (.signal .supervised),
    fun _ => List.forall_mem_nil _⟩

theorem progress_start (s : Settings) (now : Nat) (moves : List (Move κ))
    (hmoves : ∀ m ∈ moves, m.IsServed) :
    Progress (max s.refreshAttempts 1) (now + s.initTimeout)
      (start (create s now) : Turn κ).client moves := by
  have hpos : 0 < max s.refreshAttempts 1 := Nat.lt_of_lt_of_le Nat.one_pos (Nat.le_max_right ..)
  induction moves using List.reverseRecOn with
  | nil => exact .waits (unread_start s now) rfl (List.forall_mem_nil _) rfl rfl
  | append_singleton moves m ih =>
    obtain ⟨hold, hm⟩ := List.forall_mem_append.1 hmoves
    exact (ih hold).concat hpos (booked_start s now) (isolated_start s now)
      (hm m (List.mem_singleton.2 rfl))

section Sample

/-- Time goes on, whoever waits for an outcome comes for it, and whoever opens the client looks. -/
def waiting (n : Nat) : Move κ :=
  if n % 3 = 0 then .event n .clock
  else if n % 3 = 1 then .proceed n (.waiter 0) else .proceed n .opening

/-- Some moves, after which nothing else comes. -/
def continuing (moves : List (Move κ)) (n : Nat) : Move κ := (moves[n]?).getD (waiting n)

theorem continuing_of_le {moves : List (Move κ)} {n : Nat} (hn : moves.length ≤ n) :
    continuing moves n = waiting n := by
  rw [continuing, List.getElem?_eq_none hn]
  rfl

theorem fair_continuing {moves : List (Move κ)} (hmoves : ∀ m ∈ moves, m.IsServed) :
    Fair (continuing moves) where
  served n := by
    rcases Nat.lt_or_ge n moves.length with hn | hn
    · rw [continuing, List.getElem?_eq_getElem hn]
      exact hmoves _ (List.getElem_mem hn)
    · rw [continuing_of_le hn, waiting]
      split
      · trivial
      · split <;> trivial
  time n till := by
    refine ⟨3 * (n + till + moves.length), by omega, 3 * (n + till + moves.length), by omega, ?_⟩
    rw [continuing_of_le (by omega), waiting, if_pos (by omega)]
  looks n := by
    refine ⟨3 * (n + moves.length) + 2, by omega, 3 * (n + moves.length) + 2, ?_⟩
    rw [continuing_of_le (by omega), waiting, if_neg (by omega), if_neg (by omega)]
  fetches n := by
    refine ⟨3 * (n + moves.length) + 1, by omega, 3 * (n + moves.length) + 1, ?_⟩
    rw [continuing_of_le (by omega), waiting, if_neg (by omega), if_pos (by omega)]

structure Still (c : Client κ) : Prop where
  ended : c.ended.isEmpty = true
  opening : c.opening = .loading
  idle : c.supervisor.isIdle = true
  discovery : c.discovery.next = none
  pending : c.retry.pipeline.deadlines.entries = []
  parked : c.retry.deadlines.entries = []

theorem service_of_entries_nil {ds : Deadlines} (h : ds.entries = []) (now : Nat) :
    ds.service now = (ds, []) := by
  obtain ⟨entries, running⟩ := ds
  obtain rfl : entries = [] := h
  cases running <;> rfl

theorem absorb_silent (c : Client κ) : c.absorb (c.retry, .silent) = c.quiet := by
  simp [absorb, Report.silent, Report.outcomes, quiet]

theorem Still.clock (h : c.Still) (now : Nat) : c.act (.event now .clock) = c.quiet := by
  have hpipeline : c.retry.pipeline.tick now = (c.retry.pipeline, .silent) := by
    simp only [Pipeline.tick, service_of_entries_nil h.pending]
    rfl
  have hsignal : c.retry.signal (.clock now) = (c.retry, .silent) := by
    simp [Retry.signal, Pipeline.signal, hpipeline, Retry.absorb, Retry.follow, Report.silent]
  have hretry : c.retry.tick now = (c.retry, .silent) := by
    simp only [Retry.tick, service_of_entries_nil h.parked]
    rfl
  have hsupervisor : c.supervised now none (c.supervisor.tick now c.state) = c.quiet := by
    have hidle := h.idle
    unfold Supervisor.isIdle at hidle
    split at hidle
    · rename_i hphase
      simp only [supervised, Supervisor.tick, hphase]
      rfl
    · cases hidle
  have hdiscovery : c.tickDiscovery now = c.quiet := by
    cases hfunction : c.discovery.function <;> simp only [tickDiscovery, hfunction, h.discovery]
  have hopening : c.tickOpening now = c.quiet := by simp only [tickOpening, h.opening]
  simp only [act, step, tick, signal, hsignal, absorb_silent, quiet_andThen, hretry, hsupervisor,
    hdiscovery, hopening]

theorem Still.waiting (h : c.Still) (n : Nat) : c.act (waiting n) = c.quiet := by
  unfold Client.waiting
  split
  · exact h.clock n
  · split
    · simp [act, proceed, fetch, List.isEmpty_iff.1 h.ended]
    · simp only [act, proceed, look, h.opening]

theorem Still.stays {moves : List (Move κ)} (h : (c.after moves).Still) (d : Nat) :
    c.during (continuing moves) (moves.length + d) = c.after moves ∧
      c.returns (movesOf (continuing moves) (moves.length + d)) = c.returns moves := by
  induction d with
  | zero =>
    have hall : movesOf (continuing moves) moves.length = moves := by
      refine List.ext_getElem (by simp [movesOf]) fun n hn hn' => ?_
      simp [movesOf, continuing, hn']
    rw [Nat.add_zero, during, hall]
    exact ⟨rfl, rfl⟩
  | succ d ih =>
    obtain ⟨hsame, hreturns⟩ := ih
    have hquiet : (c.after moves).act (continuing moves (moves.length + d)) =
        (c.after moves).quiet := by
      rw [continuing_of_le (Nat.le_add_right ..)]
      exact h.waiting _
    rw [← Nat.add_assoc, during_succ, hsame, hquiet, movesOf_succ, returns_concat, hreturns]
    refine ⟨rfl, ?_⟩
    rw [show c.after (movesOf (continuing moves) (moves.length + d)) = _ from hsame, hquiet]
    exact List.append_nil _

def patient : Settings := { Settings.standard with operationTimeout := none }

/-- A connection is made, and the first read of the catalog is on its way. -/
def unanswered : List (Move Unit) :=
  settling 0 [] ++ settling 0 [.dialed (.ok ()), .received hello none]

theorem still_unanswered : ((start (create patient 0)).client.after unanswered).Still where
  ended := by decide +kernel
  opening := by decide +kernel
  idle := by decide +kernel
  discovery := by decide +kernel
  pending := by decide +kernel
  parked := by decide +kernel

/-- The answer comes, and the connection breaks. Another is made before anybody has come for the
answer, and the second read goes over that. -/
def relayed : List (Move Unit) :=
  [.event 0 (.received (noRows 1) none), .event 0 .hungUp, .proceed 0 .supervisor,
    .event 0 (.dialed (.ok ())), .event 0 (.received hello none), .proceed 0 (.waiter 0)]

/-- A connection is made and breaks, and only then whoever opens the client looks. -/
def missed : List (Move Unit) :=
  [.proceed 0 .supervisor, .event 0 (.dialed (.ok ())), .event 0 (.received hello none),
    .event 0 .hungUp, .event 5000 .clock]

/-- A connection comes up when the time is over, but nobody has been woken by that. -/
def belated : List (Move Unit) :=
  [.proceed 0 .supervisor, .event 0 (.dialed (.ok ())), .event 6000 (.received hello none)] ++
    settling 6000 [] ++ settling 6000 [.received (noRows 1) none] ++
    settling 6000 [.received (noRows 2) none]

end Sample

/-- A client is opened. Whatever the server does, the opening returns nothing or returns once. If it
returns a client, a connection was alive in time, and then the catalog in the cache was read. If it
returns an error, that says why, and nothing is left of the client. As time goes on it does return,
but where a read of the catalog may wait for ever and the server neither answers it nor ends the
connection. -/
theorem connects (s : Settings) (now : Nat) (haddresses : s.addresses ≠ []) :
    let limit := max s.refreshAttempts 1
    let till := now + s.initTimeout
    ∃ first : Turn κ, open? s now = .ok first ∧ first.returned = [] ∧
      (∀ moves : List (Move κ), (∀ m ∈ moves, m.IsServed) →
        first.client.returns moves = [] ∨ Concluded limit till first.client moves) ∧
      ∀ run : Nat → Move κ, Fair run →
        (∃ n, Concluded limit till first.client (movesOf run n)) ∨
        s.operationTimeout = none ∧
          ∃ n generation, ∀ k ≥ n, (first.client.during run k).Stalled generation := by
  intro limit till
  have hopen : open? s now = .ok (start (create s now) : Turn κ) := by
    simp [open?, haddresses]
  refine ⟨_, hopen, (wordless_signal _ _).returned, fun moves hmoves => ?_, fun run hfair => ?_⟩
  · cases progress_start s now moves hmoves with
    | waits _ _ _ _ hreturns => exact .inl hreturns
    | found _ _ _ _ hreturns => exact .inl hreturns
    | loads _ _ hreturns => exact .inl hreturns
    | concluded h _ => exact .inr h
  · by_cases hconcluded : ∃ n, Concluded limit till (start (create s now)).client (movesOf run n)
    · exact .inl hconcluded
    · have hendless : Endless limit till (start (create s now)).client run := by
        refine ⟨hfair, isolated_start s now, fun n => progress_start s now _ ?_,
          not_exists.1 hconcluded⟩
        exact List.forall_mem_map.2 fun k _ => hfair.served k
      exact .inr (hendless.stalls (Nat.lt_of_lt_of_le Nat.one_pos (Nat.le_max_right ..)))

/-- The opening need not return where operations have no end of their time. The two reads of the
catalog may go over two connections. A connection that was alive in time may be gone before anybody
has looked, and one that was not may be there when somebody looks. -/
theorem not_concluded_of_unanswered :
    (∃ first : Turn Unit, open? patient 0 = .ok first ∧ Fair (continuing unanswered) ∧
      ∀ n, first.client.returns (movesOf (continuing unanswered) n) = []) ∧
    (∃ first : Turn Unit, open? Settings.standard 0 = .ok first ∧
      (first.client.after unanswered).retry.pipeline.cell.generation = 1 ∧
      (first.client.after unanswered).retry.pipeline.pending.length = 1 ∧
      (first.client.after (unanswered ++ relayed)).retry.pipeline.cell.generation = 2 ∧
      (first.client.after (unanswered ++ relayed)).retry.pipeline.pending.length = 1 ∧
      first.client.returns (unanswered ++ relayed ++
        settling 0 [.received (noRows 2) none]) = [.ok ()]) ∧
    (∃ first : Turn Unit, open? Settings.standard 0 = .ok first ∧
      CameUp 5000 first.client missed ∧
      first.client.returns missed = [.error (.timeout .init)]) ∧
    ∃ first : Turn Unit, open? Settings.standard 0 = .ok first ∧
      (first.client.after (belated.take 2)).state = .connecting ∧
      (first.client.after (belated.take 3)).state = .alive ∧
      first.client.returns belated = [.ok ()] := by
  refine ⟨⟨_, rfl, fair_continuing ?_, fun n => ?_⟩, ⟨_, rfl, ?_, ?_, ?_, ?_, ?_⟩,
    ⟨_, rfl, ⟨missed.take 3, missed.drop 3, rfl, ?_, ?_⟩, ?_⟩, _, rfl, ?_, ?_, ?_⟩
  · simp [unanswered, settling, Move.IsServed]
  · have hnothing : (start (create patient 0)).client.returns unanswered = [] := by
      decide +kernel
    have hall := (still_unanswered.stays n).2
    rw [hnothing, Nat.add_comm, movesOf_add, returns_append, List.append_eq_nil_iff] at hall
    exact hall.1
  · decide +kernel
  · decide +kernel
  · decide +kernel
  · decide +kernel
  · decide +kernel
  · simp [missed, InTime, Move.IsEarly]
  · decide +kernel
  · decide +kernel
  · decide +kernel
  · decide +kernel
  · decide +kernel

theorem connects_of_greeted :
    Settings.standard.addresses ≠ [] ∧ ∃ first : Turn Unit,
      open? Settings.standard 0 = .ok first ∧ (∀ m ∈ (greeted : List (Move Unit)), m.IsServed) ∧
      Concluded 10 5000 first.client greeted ∧ Fair (continuing (greeted : List (Move Unit))) ∧
      ∃ n, Concluded 10 5000 first.client (movesOf (continuing greeted) n) := by
  have haddresses : Settings.standard.addresses ≠ [] := by decide
  have hserved : ∀ m ∈ (greeted : List (Move Unit)), m.IsServed := by
    simp [greeted, settling, Move.IsServed]
  have hreturns : ((start (create Settings.standard 0)).client.returns
      (greeted : List (Move Unit))).isEmpty = false := by decide +kernel
  have hfair := fair_continuing hserved
  obtain ⟨first, hopen, -, hmoves, hruns⟩ := connects (κ := Unit) Settings.standard 0 haddresses
  obtain rfl : start (create Settings.standard 0) = first := Except.ok.inj hopen
  refine ⟨haddresses, _, hopen, hserved, (hmoves greeted hserved).resolve_left fun hnothing => ?_,
    hfair, (hruns _ hfair).resolve_right fun hstalled => ?_⟩
  · rw [hnothing] at hreturns
    cases hreturns
  · cases hstalled.1

end TupleClient.Client
