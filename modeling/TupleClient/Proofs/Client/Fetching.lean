import TupleClient.Proofs.Client.Upkeep

/-!
How outcomes wait until somebody comes for them, and the end of everything, with which all
operations that wait have one.
-/
namespace TupleClient

namespace Retry

variable {κ : Type} {r : Retry κ} {p q : Pipeline (Owner κ)} {notes : List (Note κ)}

def Owner.tag : Owner κ → κ
  | .entry e => e.tag
  | .plain tag => tag

theorem follow_ended {reason : ClientError} (hclosed : r.closed = some reason) (alive : Bool)
    (os : List (Owner κ)) :
    r.follow alive (os.map fun o => .ended o (.error reason)) =
      (r, ⟨os.map fun o => .ended o.tag (.error reason), [], false⟩) := by
  induction os with
  | nil => rfl
  | cons o os ih =>
    cases o with
    | plain tag =>
      simp only [List.map_cons, follow, ih]
      rfl
    | entry e =>
      have hsettle : r.settle alive e (.error reason) = (r, .ended e.tag (.error reason)) := by
        simp only [settle, park_of_closed hclosed, ite_self]
      simp only [List.map_cons, follow, hsettle, ih]
      rfl

/-- The end of everything: the state is entered, and then all that waits ends, what is parked
first. -/
theorem signal_closed (h : r.pipeline.state ≠ .closed) (reason : ClientError) :
    let result := r.signal (.closed reason)
    result.1.pipeline.state = .closed ∧ result.1.pipeline.cell.terminal = some reason ∧
      result.1.pipeline.pending = [] ∧ result.1.parked = [] ∧ result.1.closed = some reason ∧
      result.2.happenings = .entered .closed ::
        ((r.parked.map fun e => .ended e.tag (.error reason)) ++
        (owners r.pipeline).map fun o => .ended o.tag (.error reason)) := by
  have hcell : r.pipeline.cell.close reason = (r.pipeline.cell.enter .closed (some reason), true) :=
    if_neg h
  obtain ⟨closed, hpipeline, hclosed⟩ : ∃ closed : Pipeline (Owner κ),
      r.pipeline.signal (.closed reason) =
        (closed, ⟨.entered .closed :: (owners r.pipeline).map fun o => .ended o (.error reason), [],
          r.pipeline.socket.isSome⟩) ∧
      closed.state = .closed ∧ closed.cell.terminal = some reason ∧ closed.pending = [] := by
    refine ⟨(r.pipeline.close reason).1, ?_, ?_⟩
    · simp [Pipeline.signal, Pipeline.close, hcell, Pipeline.teardown, Report.andThen,
        Report.entered,
        owners, Pipeline.entries]
    · simp [Pipeline.close, hcell, Pipeline.teardown, Pipeline.state, Lifecycle.Cell.enter]
  obtain ⟨hstate, hterminal, hpending⟩ := hclosed
  have hreason : closingReason { r with pipeline := closed } = reason := by
    rw [closingReason, hterminal]
    rfl
  have hfollow := follow_ended (r := (failAll { r with pipeline := closed }).1)
    (congrArg some hreason) false (owners r.pipeline)
  have hresult : r.signal (.closed reason) =
      ((failAll { r with pipeline := closed }).1,
        ⟨.entered .closed :: ((r.parked.map fun e => .ended e.tag (.error reason)) ++
          (owners r.pipeline).map fun o => .ended o.tag (.error reason)), [],
          r.pipeline.socket.isSome⟩) := by
    rw [signal, absorb, hpipeline]
    simp only [follow, entered]
    rw [show Lifecycle.State.isAlive .closed = false from rfl, hfollow]
    simp [failAll, hreason, Report.andThen, Report.entered]
  intro result
  rw [show result = _ from hresult]
  exact ⟨hstate, hterminal, hpending, rfl, congrArg some hreason, rfl⟩

theorem cell_records (h : Records p notes q) (hp : p.state = .closed) : q.cell = p.cell := by
  induction h with
  | nil p => rfl
  | @submitted p q notes now fault s _ ih =>
    have hcell := Pipeline.cell_step_of_closed hp (.submit now fault s)
    exact (ih (congrArg Lifecycle.Cell.state hcell |>.trans hp)).trans hcell
  | @signalled p q notes s _ ih =>
    have hcell := Pipeline.cell_step_of_closed hp (.signal s)
    exact (ih (congrArg Lifecycle.Cell.state hcell |>.trans hp)).trans hcell
  | refreshed _ ih => exact ih hp
  | installed _ ih => exact ih hp

theorem cell_step (h : r.pipeline.state = .closed) (e : Event κ) :
    (r.step e).1.pipeline.cell = r.pipeline.cell :=
  cell_records (records_step r e) h

end Retry

namespace Client

variable {κ : Type} {c c' : Client κ}

/-- What has ended since stands behind what ended before. -/
def Queues (c c' : Client κ) : Prop := ∃ more, c'.ended = c.ended ++ more

theorem habit_queues : Habit fun (c : Client κ) t _ => Queues c t.client where
  andThen h g := by
    obtain ⟨first, hfirst⟩ := h
    obtain ⟨more, hmore⟩ := g
    exact ⟨first ++ more, by rw [Turn.andThen, hmore, hfirst, List.append_assoc]⟩
  aside hc h := by
    obtain ⟨more, hmore⟩ := h
    exact ⟨more, by rw [hmore, hc.ended]⟩
  words hc _ := ⟨[], by rw [hc.ended, List.append_nil]⟩
  event _ := ⟨_, rfl⟩

/-- The outcomes that a move leaves behind: one is fetched at the most. -/
def unfetched (c : Client κ) : Move κ → List (Tag κ × Outcome)
  | .proceed _ (.waiter i) => c.ended.eraseIdx i
  | _ => c.ended

theorem queues_deliver (c : Client κ) (now : Nat) (tag : Tag κ) (outcome : Outcome) :
    Queues c (c.deliver now tag outcome).client := by
  cases tag with
  | user tag => exact ⟨[], (List.append_nil _).symm⟩
  | read number => exact habit_queues.answered c now number outcome
  | members => exact habit_queues.polled c now outcome

theorem ended_act (c : Client κ) (m : Move κ) :
    ∃ more, (c.act m).client.ended = c.unfetched m ++ more := by
  cases m with
  | event now e =>
    by_cases he : e.IsHeard
    · exact (upkeep_heard now he).beside.ended
    · cases e with
      | clock =>
        have hasked := @Habit.andThen _ _ habit_queues c _ (·.tickDiscovery now) [] []
          (upkeep_keepTime c now).beside.ended (habit_queues.tickDiscovery _ now)
        exact @Habit.andThen _ _ habit_queues c _ (·.tickOpening now) [] [] hasked
          (habit_queues.tickOpening _ now)
      | execute request tag => exact habit_queues.execute c now request tag
      | close => exact habit_queues.shut c rfl
      | _ => exact absurd trivial he
  | proceed now w =>
    cases w with
    | supervisor => exact (upkeep_attend c now).beside.ended
    | opening => exact habit_queues.look c now
    | waiter i =>
      simp only [act, proceed, fetch, unfetched]
      cases hi : c.ended[i]? with
      | some x => exact queues_deliver { c with ended := c.ended.eraseIdx i } now x.1 x.2
      | none =>
        rw [List.eraseIdx_of_length_le (List.getElem?_eq_none_iff.1 hi)]
        exact ⟨[], (List.append_nil _).symm⟩
    | replay =>
      simp only [act, proceed]
      split
      · exact habit_queues.beginReplay c now
      · exact ⟨[], (List.append_nil _).symm⟩
    | writer => exact habit_queues.signal c (.writable none) id (by simp)

def Move.fetchesFirst : Move κ → Bool
  | .proceed _ (.waiter 0) => true
  | _ => false

theorem getElem?_act {x : Tag κ × Outcome} {m : Move κ} {j : Nat}
    (h : (c.unfetched m)[j]? = some x) : (c.act m).client.ended[j]? = some x := by
  obtain ⟨more, hmore⟩ := ended_act c m
  obtain ⟨hj, -⟩ := List.getElem?_eq_some_iff.1 h
  rw [hmore, List.getElem?_append_left hj]
  exact h

/-- One that does not fetch an outcome leaves it in its place, or moves it up by one. -/
theorem ended_cases {x : Tag κ × Outcome} {j : Nat} (h : c.ended[j]? = some x) (m : Move κ) :
    (∃ now, m = .proceed now (.waiter j)) ∨
      (c.act m).client.ended[j]? = some x ∧ m.fetchesFirst = false ∨
      ∃ i, j = i + 1 ∧ (c.act m).client.ended[i]? = some x := by
  cases m with
  | event now e => exact .inr (.inl ⟨getElem?_act h, rfl⟩)
  | proceed now w =>
    cases w with
    | waiter i =>
      rcases Nat.lt_trichotomy i j with hbefore | rfl | hbehind
      · obtain ⟨j, rfl⟩ := Nat.exists_eq_add_one_of_ne_zero (Nat.ne_zero_of_lt hbefore)
        refine .inr (.inr ⟨j, rfl, getElem?_act ?_⟩)
        rw [unfetched, List.getElem?_eraseIdx_of_ge (Nat.le_of_lt_succ hbefore)]
        exact h
      · exact .inl ⟨now, rfl⟩
      · refine .inr (.inl ⟨getElem?_act ?_, ?_⟩)
        · rw [unfetched, List.getElem?_eraseIdx_of_lt hbehind]
          exact h
        · cases i with
          | zero => cases hbehind
          | succ i => rfl
    | _ => exact .inr (.inl ⟨getElem?_act h, rfl⟩)

/-- An outcome is fetched, at the latest when all that ended before it has been. -/
theorem fetched_within {x : Tag κ × Outcome} {j : Nat} (h : c.ended[j]? = some x)
    {moves : List (Move κ)} (hcount : j < moves.countP Move.fetchesFirst) :
    ∃ before now i later, moves = before ++ .proceed now (.waiter i) :: later ∧
      (c.after before).ended[i]? = some x := by
  induction moves generalizing c j with
  | nil => cases hcount
  | cons m moves ih =>
    have hlater {i : Nat} (hnext : (c.act m).client.ended[i]? = some x)
        (hleft : i < moves.countP Move.fetchesFirst) :
        ∃ before now i later, m :: moves = before ++ .proceed now (.waiter i) :: later ∧
          (c.after before).ended[i]? = some x := by
      obtain ⟨before, now, i, later, rfl, hfound⟩ := ih hnext hleft
      exact ⟨m :: before, now, i, later, rfl, hfound⟩
    rcases ended_cases h m with ⟨now, rfl⟩ | ⟨hkept, hnot⟩ | ⟨i, rfl, hmoved⟩
    · exact ⟨[], now, j, moves, rfl, h⟩
    · rw [List.countP_cons_of_neg (by simp [hnot])] at hcount
      exact hlater hkept hcount
    · refine hlater hmoved ?_
      rw [List.countP_cons] at hcount
      split at hcount <;> omega

/-- The user is told of an operation that has ended, once and for all. -/
theorem told_within {tag : κ} {outcome : Outcome} (h : (.user tag, outcome) ∈ c.ended)
    {moves : List (Move κ)} (hcount : c.ended.length ≤ moves.countP Move.fetchesFirst) :
    ∃ before m later, moves = before ++ m :: later ∧
      ((c.after before).act m).effects = [.finished tag outcome] := by
  obtain ⟨j, hj⟩ := List.mem_iff_getElem?.1 h
  have hlt : j < c.ended.length := (List.getElem?_eq_some_iff.1 hj).1
  obtain ⟨before, now, i, later, hmoves, hfound⟩ :=
    fetched_within hj (Nat.lt_of_lt_of_le hlt hcount)
  refine ⟨before, _, later, hmoves, ?_⟩
  simp only [act, proceed, fetch, hfound]
  rfl

theorem Upkeep.cell (h : Upkeep c c') (hclosed : c.state = .closed) :
    c'.retry.pipeline.cell = c.retry.pipeline.cell := by
  refine h.carries
    (R := fun c c' => c.state = .closed → c'.retry.pipeline.cell = c.retry.pipeline.cell)
    (fun _ _ => rfl) ?_ (fun c s hc => Retry.cell_step hc (.signal s))
    (fun c now hc => Retry.cell_step hc (.clock now)) (fun _ _ _ => rfl) hclosed
  intro first next last hfirst hnext hc
  have hcell := hfirst hc
  exact (hnext ((congrArg Lifecycle.Cell.state hcell).trans hc)).trans hcell

end Client
end TupleClient
