import TupleClient.Promise

/-!
What a promise tells those who ask. Until it is kept they are told to go on waiting, then the first
of them is told the outcome and the others that it has been taken; of those who left word the last
one is woken, once. It is the same whether the promise has one state or is written down in four
fields, each changed by itself.
-/
namespace TupleClient.Promise

variable {ω : Type}

/-- What is done with a promise. To wait for it is to look at it again and again, up to the limit if
there is one. -/
inductive Call (ω : Type) where
  | complete (outcome : Outcome)
  | tryTake
  | look (limit : Option Nat) (now : Nat)
  | poll (waker : ω)

/-- What comes of it: whether the outcome counts and who is woken for it; that there is none so far,
for which one may go on waiting; or the outcome. -/
inductive Answer (ω : Type) where
  | given (counts : Bool) (woken : Option ω)
  | running
  | waiting
  | told (outcome : Outcome)

def Call.isComplete : Call ω → Bool
  | .complete _ => true
  | _ => false

def Call.waker? : Call ω → Option ω
  | .poll waker => some waker
  | _ => none

def Call.unready : Call ω → Answer ω
  | .look limit now => if limit.any (· ≤ now) then .running else .waiting
  | _ => .running

def Call.report (c : Call ω) : Option Outcome → Answer ω
  | some outcome => .told outcome
  | none => c.unready

def call (p : Promise ω) : Call ω → Promise ω × Answer ω
  | .complete outcome =>
    let (p, counts, woken) := p.complete outcome
    (p, .given counts woken)
  | .poll waker =>
    let (p, found) := p.poll waker
    (p, Call.report (.poll waker) found)
  | c =>
    let (p, found) := p.take?
    (p, c.report found)

structure Slot (ω : Type) where
  outcome : Option Outcome
  isDone : Bool
  isTaken : Bool
  waker : Option ω

namespace Slot

def empty : Slot ω := ⟨none, false, false, none⟩

def complete (s : Slot ω) (outcome : Outcome) : Slot ω × Bool × Option ω :=
  if s.isDone then (s, false, none)
  else ({ s with outcome := some outcome, isDone := true, waker := none }, true, s.waker)

/-- What is told in place of an outcome that was given, was not taken and is not there. -/
def missing : Outcome := .error (.connection .notConnected)

def take (s : Slot ω) : Slot ω × Outcome :=
  if s.isTaken then (s, .error alreadyTaken)
  else ({ s with outcome := none, isTaken := true }, s.outcome.getD missing)

def take? (s : Slot ω) : Slot ω × Option Outcome :=
  if s.isDone then (s.take.1, some s.take.2) else (s, none)

def poll (s : Slot ω) (waker : ω) : Slot ω × Option Outcome :=
  if s.isDone then (s.take.1, some s.take.2) else ({ s with waker := some waker }, none)

def call (s : Slot ω) : Call ω → Slot ω × Answer ω
  | .complete outcome =>
    let (s, counts, woken) := s.complete outcome
    (s, .given counts woken)
  | .poll waker =>
    let (s, found) := s.poll waker
    (s, Call.report (.poll waker) found)
  | c =>
    let (s, found) := s.take?
    (s, c.report found)

end Slot

section Runs

variable {σ : Type}

def after (step : σ → Call ω → σ × Answer ω) (s : σ) : List (Call ω) → σ
  | [] => s
  | c :: cs => after step (step s c).1 cs

def answers (step : σ → Call ω → σ × Answer ω) (s : σ) : List (Call ω) → List (Answer ω)
  | [] => []
  | c :: cs => (step s c).2 :: answers step (step s c).1 cs

theorem after_append (step : σ → Call ω → σ × Answer ω) (s : σ) (cs ds : List (Call ω)) :
    after step s (cs ++ ds) = after step (after step s cs) ds := by
  induction cs generalizing s with
  | nil => rfl
  | cons c cs ih => exact ih _

theorem answers_append (step : σ → Call ω → σ × Answer ω) (s : σ) (cs ds : List (Call ω)) :
    answers step s (cs ++ ds) = answers step s cs ++ answers step (after step s cs) ds := by
  induction cs generalizing s with
  | nil => rfl
  | cons c cs ih => exact congrArg (_ :: ·) (ih _)

end Runs

def slot (p : Promise ω) : Slot ω :=
  match p.state with
  | .pending => ⟨none, false, false, p.waker⟩
  | .kept outcome => ⟨some outcome, true, false, p.waker⟩
  | .taken => ⟨none, true, true, p.waker⟩

theorem slot_call (p : Promise ω) (c : Call ω) :
    p.slot.call c = ((p.call c).1.slot, (p.call c).2) := by
  obtain ⟨state, waker⟩ := p
  cases state <;> cases c <;> rfl

theorem slot_run (p : Promise ω) (cs : List (Call ω)) :
    after Slot.call p.slot cs = (after call p cs).slot ∧
      answers Slot.call p.slot cs = answers call p cs := by
  induction cs generalizing p with
  | nil => exact ⟨rfl, rfl⟩
  | cons c cs ih =>
    obtain ⟨hafter, hanswers⟩ := ih (p.call c).1
    simp only [after, answers, slot_call, hafter, hanswers, and_self]

/-- In the fields of a promise an outcome that was given and was not taken is there. -/
theorem outcome_of_slot {p : Promise ω} (hdone : p.slot.isDone = true)
    (htaken : p.slot.isTaken = false) : ∃ outcome, p.slot.outcome = some outcome := by
  obtain ⟨state, waker⟩ := p
  cases state with
  | pending => cases hdone
  | taken => cases htaken
  | kept outcome => exact ⟨outcome, rfl⟩

/-! Before and after the first outcome -/

def lastWaker (cs : List (Call ω)) : Option ω := (cs.filterMap Call.waker?).getLast?

theorem call_of_pending {waker : Option ω} {c : Call ω} (hc : c.isComplete = false) :
    call ⟨.pending, waker⟩ c = (⟨.pending, c.waker?.or waker⟩, c.unready) := by
  cases c with
  | complete outcome => cases hc
  | tryTake | look | poll => rfl

theorem run_of_pending (waker : Option ω) {cs : List (Call ω)}
    (hcs : ∀ c ∈ cs, c.isComplete = false) :
    after call ⟨.pending, waker⟩ cs = ⟨.pending, (lastWaker cs).or waker⟩ ∧
      answers call ⟨.pending, waker⟩ cs = cs.map Call.unready := by
  induction cs generalizing waker with
  | nil => exact ⟨rfl, rfl⟩
  | cons c cs ih =>
    obtain ⟨hc, hrest⟩ := List.forall_mem_cons.1 hcs
    obtain ⟨hafter, hanswers⟩ := ih (c.waker?.or waker) hrest
    have hlast : lastWaker (c :: cs) = (lastWaker cs).or c.waker? := by
      cases hwaker : c.waker? <;> simp [lastWaker, hwaker, List.getLast?_cons]
    rw [after, answers, call_of_pending hc, hafter, hanswers, hlast, Option.or_assoc]
    exact ⟨rfl, rfl⟩

/-- What is told once there is an outcome: this outcome to the first who asks, and to all others
that it has been taken. -/
def heard (outcome : Outcome) : List (Call ω) → List (Answer ω)
  | [] => []
  | .complete _ :: cs => .given false none :: heard outcome cs
  | _ :: cs => .told outcome :: heard (.error alreadyTaken) cs

theorem call_of_kept {outcome : Outcome} {p : Promise ω} (hp : p.take?.2 = some outcome)
    (c : Call ω) :
    (c.isComplete = true ∧ p.call c = (p, .given false none)) ∨
      (c.isComplete = false ∧ p.call c = (p.take?.1, .told outcome) ∧
        p.take?.1.take?.2 = some (.error alreadyTaken)) := by
  obtain ⟨state, waker⟩ := p
  cases state with
  | pending => cases hp
  | kept other =>
    cases hp
    cases c with
    | complete => exact .inl ⟨rfl, rfl⟩
    | tryTake | look | poll => exact .inr ⟨rfl, rfl, rfl⟩
  | taken =>
    cases hp
    cases c with
    | complete => exact .inl ⟨rfl, rfl⟩
    | tryTake | look | poll => exact .inr ⟨rfl, rfl, rfl⟩

theorem answers_of_kept {outcome : Outcome} {p : Promise ω} (hp : p.take?.2 = some outcome)
    (cs : List (Call ω)) : answers call p cs = heard outcome cs := by
  induction cs generalizing p outcome with
  | nil => rfl
  | cons c cs ih =>
    rw [answers]
    obtain ⟨hc, hcall⟩ | ⟨hc, hcall, hnext⟩ := call_of_kept hp c
    · rw [hcall, ih hp]
      cases c with
      | complete => rfl
      | tryTake | look | poll => cases hc
    · rw [hcall, ih hnext]
      cases c with
      | complete => cases hc
      | tryTake | look | poll => rfl

/-! What is told, who is woken, and what counts -/

def Answer.outcome? : Answer ω → Option Outcome
  | .told outcome => some outcome
  | _ => none

def Answer.woken? : Answer ω → Option ω
  | .given _ woken => woken
  | _ => none

def Answer.counts : Answer ω → Bool
  | .given counts _ => counts
  | _ => false

def readers (cs : List (Call ω)) : Nat := cs.countP (!·.isComplete)

theorem unready_cases (c : Call ω) : c.unready = .running ∨ c.unready = .waiting := by
  cases c with
  | look limit now =>
    by_cases hlimit : limit.any (· ≤ now)
    · exact .inl (if_pos hlimit)
    · exact .inr (if_neg hlimit)
  | complete | tryTake | poll => exact .inl rfl

theorem map_unready (cs : List (Call ω)) :
    (cs.map Call.unready).filterMap Answer.outcome? = [] ∧
      (cs.map Call.unready).filterMap Answer.woken? = [] ∧
      (cs.map Call.unready).countP Answer.counts = 0 := by
  induction cs with
  | nil => exact ⟨rfl, rfl, rfl⟩
  | cons c cs ih =>
    obtain ⟨htold, hwoken, hcounts⟩ := ih
    obtain hc | hc := unready_cases c
    all_goals
      rw [List.map_cons, hc]
      exact ⟨htold, hwoken, hcounts⟩

theorem heard_told (outcome : Outcome) (cs : List (Call ω)) :
    (heard outcome cs).filterMap Answer.outcome? =
      (outcome :: .replicate (readers cs) (.error alreadyTaken)).take (readers cs) := by
  induction cs generalizing outcome with
  | nil => rfl
  | cons c cs ih =>
    cases c with
    | complete other => exact ih outcome
    | tryTake | look | poll =>
      have hlater := ih (.error alreadyTaken)
      rw [← List.replicate_succ, List.take_replicate, Nat.min_eq_left (Nat.le_succ _)] at hlater
      simp [heard, Answer.outcome?, hlater, readers, Call.isComplete]

theorem heard_quiet (outcome : Outcome) (cs : List (Call ω)) :
    (heard outcome cs).filterMap Answer.woken? = [] ∧
      (heard outcome cs).countP Answer.counts = 0 := by
  induction cs generalizing outcome with
  | nil => exact ⟨rfl, rfl⟩
  | cons c cs ih =>
    cases c with
    | complete other => exact ih outcome
    | tryTake | look | poll => exact ih (.error alreadyTaken)

/-- The answers around the first outcome: to those who ask before it, to whoever gives it, and to
all others. Of the wakers that were left the last one is woken, once; of those who ask afterwards
the first one is told the outcome. -/
structure ToldOnce (early : List (Call ω)) (outcome : Outcome) (late : List (Call ω))
    (all : List (Answer ω)) : Prop where
  inFull : all = early.map Call.unready ++ .given true (lastWaker early) :: heard outcome late
  told : all.filterMap Answer.outcome? =
    (outcome :: .replicate (readers late) (.error alreadyTaken)).take (readers late)
  woken : all.filterMap Answer.woken? = (lastWaker early).toList
  counts : all.countP Answer.counts = 1

theorem toldOnce {early late : List (Call ω)} {outcome : Outcome} {all : List (Answer ω)}
    (h : all = early.map Call.unready ++ .given true (lastWaker early) :: heard outcome late) :
    ToldOnce early outcome late all := by
  obtain ⟨htold, hwoken, hcounts⟩ := map_unready early
  obtain ⟨hquiet, hnone⟩ := heard_quiet outcome late
  refine ⟨h, ?_, ?_, ?_⟩
  · rw [h, List.filterMap_append, htold]
    exact heard_told outcome late
  · rw [h, List.filterMap_append, hwoken, List.filterMap_cons]
    cases hwaker : lastWaker early <;> simp [Answer.woken?, hquiet]
  · rw [h, List.countP_append, hcounts, List.countP_cons, hnone]
    rfl

structure TellsOnce (calls : List (Call ω)) : Prop where
  same : answers Slot.call .empty calls = answers call unkept calls
  present : (after Slot.call .empty calls).isDone = true →
    (after Slot.call .empty calls).isTaken = false →
    ∃ outcome, (after Slot.call .empty calls).outcome = some outcome
  running : (∀ c ∈ calls, c.isComplete = false) →
    answers Slot.call .empty calls = calls.map Call.unready
  told : ∀ early outcome late, calls = early ++ .complete outcome :: late →
    (∀ c ∈ early, c.isComplete = false) →
    ToldOnce early outcome late (answers Slot.call .empty calls)
  settled : ∀ early outcome late, calls = early ++ .complete outcome :: late → ∀ other,
    (after Slot.call .empty calls).call (.complete other) =
      (after Slot.call .empty calls, .given false none)

theorem after_of_kept {outcome : Outcome} {p : Promise ω} (hp : p.take?.2 = some outcome)
    (cs : List (Call ω)) : ∃ next, (after call p cs).take?.2 = some next := by
  induction cs generalizing p outcome with
  | nil => exact ⟨outcome, hp⟩
  | cons c cs ih =>
    rw [after]
    obtain ⟨-, hcall⟩ | ⟨-, hcall, hnext⟩ := call_of_kept hp c
    · rw [hcall]
      exact ih hp
    · rw [hcall]
      exact ih hnext

/-- Whatever outcome is given, there is one to tell afterwards. -/
theorem kept_of_complete (p : Promise ω) (outcome : Outcome) :
    ∃ next, (p.call (.complete outcome)).1.take?.2 = some next := by
  obtain ⟨state, waker⟩ := p
  cases state <;> exact ⟨_, rfl⟩

/-- In whatever order outcomes are given and asked for: only the first one counts, and whoever left
word last is woken for it, once. Until then all are told that there is none. Then the first who asks
is told the outcome and all others that it has been taken; nobody finds it missing. -/
theorem tells_once (calls : List (Call ω)) : TellsOnce calls := by
  obtain ⟨hafter, hsame⟩ := slot_run unkept calls
  have hempty : (unkept : Promise ω).slot = .empty := rfl
  rw [hempty] at hafter hsame
  refine ⟨hsame, ?_, fun hcalls => ?_, ?_, ?_⟩
  · rw [hafter]
    exact outcome_of_slot
  · rw [hsame]
    exact (run_of_pending none hcalls).2
  · rintro early outcome late rfl hearly
    have hpending : after call unkept early = ⟨.pending, lastWaker early⟩ := by
      rw [unkept, (run_of_pending none hearly).1, Option.or_none]
    have hkept : call ⟨.pending, lastWaker early⟩ (.complete outcome) =
        (⟨.kept outcome, none⟩, .given true (lastWaker early)) := rfl
    apply toldOnce
    rw [hsame, answers_append, hpending, answers, hkept,
      answers_of_kept (p := ⟨.kept outcome, none⟩) rfl]
    exact congrArg (· ++ _) (run_of_pending none hearly).2
  · rintro early outcome late rfl other
    -- there is an outcome to tell from the first one on
    obtain ⟨first, hfirst⟩ := kept_of_complete (after call unkept early) outcome
    obtain ⟨next, hnext⟩ := after_of_kept hfirst late
    rw [hafter, slot_call, after_append, after]
    obtain ⟨-, hcall⟩ | ⟨hother, -⟩ := call_of_kept hnext (.complete other)
    · rw [hcall]
    · cases hother

/-- The one who polled last is woken, and the first who asks afterwards is told. -/
theorem tells_once_of_two_polls :
    let outcome : Outcome := .error (.connection .notConnected)
    let early : List (Call Nat) := [.poll 1, .look (some 5) 3, .poll 2, .look (some 5) 5]
    let late := [.complete (.error alreadyTaken), .look (some 5) 6, .tryTake, .poll 3]
    let all := answers Slot.call .empty (early ++ .complete outcome :: late)
    all = [.running, .waiting, .running, .running, .given true (some 2), .given false none,
      .told outcome, .told (.error alreadyTaken), .told (.error alreadyTaken)] ∧
    all.filterMap Answer.woken? = [2] ∧ all.countP Answer.counts = 1 := by
  intro outcome early late all
  have hearly : ∀ c ∈ early, c.isComplete = false := by simp [early, Call.isComplete]
  have htold := (tells_once (early ++ .complete outcome :: late)).told early outcome late rfl hearly
  exact ⟨htold.inFull, htold.woken, htold.counts⟩

end TupleClient.Promise
