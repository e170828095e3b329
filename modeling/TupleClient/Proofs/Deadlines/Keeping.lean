import Mathlib.Data.List.Basic
import TupleClient.Proofs.Deadlines.Entries

/-!
Deadlines that are called out when they pass. One keeper does this, who looks at the clock, calls
out one deadline at a time and sleeps while none has passed; meanwhile deadlines are scheduled and
cancelled. The keeper oversleeps none of them, and calls out those that are waiting and no others.
-/
namespace TupleClient

/-- Asleep, the keeper waits for word, and up to the limit if there is one. -/
inductive Keeper.State where
  | awake
  | asleep (limit : Option Nat)
  | gone

/-- Whoever calls out deadlines as they pass. -/
structure Keeper where
  deadlines : Deadlines
  state : Keeper.State

namespace Keeper

def start : Keeper := ⟨.empty, .awake⟩

def State.roused : State → State
  | .asleep _ => .awake
  | s => s

def State.looks (now : Nat) : State → Bool
  | .awake => true
  | .asleep limit => limit.any (· ≤ now)
  | .gone => false

/-- If the time of the first entry has come the entry is taken off and called out. Otherwise the
keeper sleeps up to that time, or until word comes where there is no entry. -/
def look (k : Keeper) (now : Nat) : Keeper × Option Deadline :=
  if k.deadlines.running then
    match k.deadlines.entries with
    | [] => (⟨k.deadlines, .asleep none⟩, none)
    | d :: es =>
      if d.time ≤ now then (⟨{ k.deadlines with entries := es }, .awake⟩, some d)
      else (⟨k.deadlines, .asleep (some d.time)⟩, none)
  else (⟨k.deadlines, .gone⟩, none)

def leads (d : Deadline) (ds : Deadlines) : Bool := ds.entries.head?.all (d.time < ·.time)

/-- What happens to a keeper: calls from outside, a sleep that ends without a cause, and the clock,
which may let the keeper look once. -/
inductive Event where
  | schedule (d : Deadline)
  | cancel (d : Deadline)
  | stop
  | stir
  | clock (now : Nat)

/-- Word is sent where the keeper has to get up earlier than before, and to stop. -/
def step (k : Keeper) : Event → Keeper × Option Deadline
  | .schedule d =>
    (⟨k.deadlines.schedule d.id d.time,
      if leads d k.deadlines then k.state.roused else k.state⟩, none)
  | .cancel d => (⟨k.deadlines.cancel d.id d.time, k.state⟩, none)
  | .stop => (⟨k.deadlines.stop, k.state.roused⟩, none)
  | .stir => (⟨k.deadlines, k.state.roused⟩, none)
  | .clock now => if k.state.looks now then k.look now else (k, none)

inductive Mark where
  | scheduled (d : Deadline)
  | cancelled (d : Deadline)
  | stopped
  | called (d : Deadline)
deriving DecidableEq

def Event.mark : Event → Option Mark
  | .schedule d => some (.scheduled d)
  | .cancel d => some (.cancelled d)
  | .stop => some .stopped
  | _ => none

def marks (k : Keeper) (e : Event) : List Mark :=
  e.mark.toList ++ ((k.step e).2.map .called).toList

def after (k : Keeper) : List Event → Keeper
  | [] => k
  | e :: es => (k.step e).1.after es

def log (k : Keeper) : List Event → List Mark
  | [] => []
  | e :: es => k.marks e ++ (k.step e).1.log es

def Mark.Ends (d : Deadline) (m : Mark) : Prop := m = .cancelled d ∨ m = .called d ∨ m = .stopped

/-- The deadline was scheduled, and since then neither cancelled nor called out, nor was everything
stopped. -/
def Waits (log : List Mark) (d : Deadline) : Prop :=
  ∃ before since, log = before ++ .scheduled d :: since ∧ ∀ m ∈ since, ¬ m.Ends d

theorem waits_concat {log : List Mark} {m : Mark} {d : Deadline} :
    Waits (log ++ [m]) d ↔ m = .scheduled d ∨ Waits log d ∧ ¬ m.Ends d := by
  constructor
  · rintro ⟨before, since, heq, hsince⟩
    obtain rfl | ⟨since, last, rfl⟩ := List.eq_nil_or_concat since
    · obtain ⟨-, hlast⟩ := List.append_inj' heq rfl
      exact .inl (List.cons.inj hlast).1
    · rw [List.concat_eq_append, ← List.cons_append, ← List.append_assoc] at heq
      rw [List.concat_eq_append] at hsince
      obtain ⟨rfl, hlast⟩ := List.append_inj' heq rfl
      obtain rfl : m = last := (List.cons.inj hlast).1
      exact .inr ⟨⟨before, since, rfl, fun x hx => hsince x (List.mem_append_left _ hx)⟩,
        hsince m (by simp)⟩
  · rintro (rfl | ⟨⟨before, since, rfl, hsince⟩, hm⟩)
    · exact ⟨log, [], rfl, nofun⟩
    · refine ⟨before, since ++ [m], by simp, fun x hx => ?_⟩
      obtain hx | hx := List.mem_append.1 hx
      · exact hsince x hx
      · rwa [List.mem_singleton.1 hx]

variable {k : Keeper} {ds : Deadlines} {d : Deadline} {log : List Mark} {now : Nat}

/-- Asleep, the keeper sleeps no longer than up to the time of each entry. Only when everything is
stopped the keeper is gone. -/
def State.Fits (ds : Deadlines) : State → Prop
  | .awake => True
  | .asleep limit => ds.running = true ∧ ∀ d ∈ ds.entries, ∃ time, limit = some time ∧ time ≤ d.time
  | .gone => ds.running = false

theorem State.Fits.roused {s : State} {changed : Deadlines} (h : s.Fits ds)
    (hrunning : ds.running = false → changed.running = false) : s.roused.Fits changed := by
  cases s with
  | gone => exact hrunning h
  | awake | asleep => trivial

theorem State.Fits.fewer {s : State} {changed : Deadlines} (h : s.Fits ds)
    (hrunning : changed.running = ds.running) (hsub : ∀ d ∈ changed.entries, d ∈ ds.entries) :
    s.Fits changed := by
  cases s with
  | awake => trivial
  | asleep limit => exact ⟨hrunning.trans h.1, fun d hd => h.2 d (hsub d hd)⟩
  | gone => exact hrunning.trans h

theorem State.Fits.scheduled {s : State} (h : s.Fits ds) (hleads : leads d ds = false) :
    s.Fits (ds.schedule d.id d.time) := by
  cases s with
  | awake => trivial
  | gone => exact h
  | asleep limit =>
    refine ⟨h.1, fun x hx => ?_⟩
    obtain rfl | hx := (Deadlines.mem_schedule ds d.id d.time).1 hx
    · cases hentries : ds.entries with
      | nil => simp [leads, hentries] at hleads
      | cons first es =>
        have hle : first.time ≤ d.time := by simpa [leads, hentries] using hleads
        obtain ⟨time, hlimit, htime⟩ := h.2 first (by simp [hentries])
        exact ⟨time, hlimit, Nat.le_trans htime hle⟩
    · exact h.2 x hx

structure Tells (log : List Mark) (k : Keeper) : Prop where
  waits : ∀ d, d ∈ k.deadlines.entries ↔ Waits log d
  sorted : k.deadlines.Sorted
  running : k.deadlines.running = true ↔ .stopped ∉ log
  fits : k.state.Fits k.deadlines

theorem tells_start : Tells [] start where
  waits d := by simp [start, Deadlines.empty, Waits]
  sorted := .nil
  running := by simp [start, Deadlines.empty]
  fits := trivial

theorem look_cases (h : k.deadlines.Sorted) (now : Nat) :
    (∃ s : State, s.Fits k.deadlines ∧ k.deadlines.due now = [] ∧
      k.look now = (⟨k.deadlines, s⟩, none)) ∨
    ∃ d es, k.deadlines.entries = d :: es ∧ k.deadlines.running = true ∧ d.time ≤ now ∧
      k.look now = (⟨{ k.deadlines with entries := es }, .awake⟩, some d) := by
  unfold look
  cases hrunning : k.deadlines.running with
  | false => exact .inl ⟨.gone, hrunning, Deadlines.due_eq_nil (by simp [hrunning]), rfl⟩
  | true =>
    cases hentries : k.deadlines.entries with
    | nil =>
      exact .inl ⟨.asleep none, ⟨hrunning, by simp [hentries]⟩,
        Deadlines.due_eq_nil (by simp [hentries]), rfl⟩
    | cons d es =>
      simp only [if_true]
      by_cases hle : d.time ≤ now
      · rw [if_pos hle]
        exact .inr ⟨d, es, rfl, trivial, hle, rfl⟩
      · have hlater : ∀ x ∈ k.deadlines.entries, d.time ≤ x.time := fun x => h.time_le hentries
        rw [if_neg hle]
        refine .inl ⟨.asleep (some d.time), ⟨hrunning, fun x hx => ⟨_, rfl, hlater x hx⟩⟩,
          Deadlines.due_eq_nil fun _ x hx => ?_, rfl⟩
        have := hlater x hx
        omega

theorem State.Fits.due_eq_nil {s : State} (h : s.Fits ds) (hlooks : s.looks now = false) :
    ds.due now = [] := by
  refine Deadlines.due_eq_nil fun hrunning d hd => ?_
  cases s with
  | awake => cases hlooks
  | gone => exact absurd (h.symm.trans hrunning) Bool.false_ne_true
  | asleep limit =>
    obtain ⟨time, rfl, htime⟩ := h.2 d hd
    have hearly : now < time := by simpa [State.looks] using hlooks
    omega

theorem clock_cases (h : Tells log k) (now : Nat) :
    (∃ s : State, s.Fits k.deadlines ∧ k.deadlines.due now = [] ∧
      k.step (.clock now) = (⟨k.deadlines, s⟩, none)) ∨
    ∃ d es, k.deadlines.entries = d :: es ∧ k.deadlines.running = true ∧ d.time ≤ now ∧
      k.step (.clock now) = (⟨{ k.deadlines with entries := es }, .awake⟩, some d) := by
  rw [step]
  cases hlooks : k.state.looks now with
  | true => exact look_cases h.sorted now
  | false => exact .inl ⟨k.state, h.fits, h.fits.due_eq_nil hlooks, rfl⟩

theorem tells_same (h : Tells log k) {s : State} (hs : s.Fits k.deadlines) :
    Tells log ⟨k.deadlines, s⟩ := ⟨h.waits, h.sorted, h.running, hs⟩

theorem tells_called (h : Tells log k) {es : List Deadline}
    (hentries : k.deadlines.entries = d :: es) :
    Tells (log ++ [.called d]) ⟨{ k.deadlines with entries := es }, .awake⟩ where
  waits x := by
    have hnodup := h.sorted.nodup
    rw [hentries] at hnodup
    have hfirst : d ∉ es := (List.nodup_cons.1 hnodup).1
    have hmem : x ∈ es ↔ x ∈ k.deadlines.entries ∧ x ≠ d := by
      rw [hentries, List.mem_cons]
      exact ⟨fun hx => ⟨.inr hx, fun heq => hfirst (heq ▸ hx)⟩,
        fun ⟨hx, hne⟩ => hx.resolve_left hne⟩
    rw [waits_concat, ← h.waits, hmem]
    simp [Mark.Ends, eq_comm]
  sorted := by
    have hsorted := h.sorted
    rw [Deadlines.Sorted, hentries] at hsorted
    exact (List.pairwise_cons.1 hsorted).2
  running := by simp [h.running]
  fits := trivial

theorem Tells.step (h : Tells log k) (e : Event) : Tells (log ++ k.marks e) (k.step e).1 := by
  cases e with
  | schedule d =>
    refine ⟨fun x => ?_, Deadlines.sorted_insertInto _ h.sorted, ?_, ?_⟩
    · have hmem : x ∈ (k.deadlines.schedule d.id d.time).entries ↔
          x = d ∨ x ∈ k.deadlines.entries := Deadlines.mem_schedule ..
      refine hmem.trans ?_
      show _ ↔ Waits (log ++ [.scheduled d]) x
      rw [waits_concat, h.waits]
      simp [Mark.Ends, eq_comm]
    · show k.deadlines.running = true ↔ .stopped ∉ log ++ [.scheduled d]
      simp [h.running]
    · show (if leads d k.deadlines then k.state.roused else k.state).Fits _
      cases hleads : leads d k.deadlines with
      | true => exact h.fits.roused id
      | false => exact h.fits.scheduled hleads
  | cancel d =>
    refine ⟨fun x => ?_, List.Pairwise.filter _ h.sorted, ?_, h.fits.fewer rfl fun x hx => ?_⟩
    · have hmem : x ∈ (k.deadlines.cancel d.id d.time).entries ↔
          x ∈ k.deadlines.entries ∧ x ≠ d := Deadlines.mem_cancel ..
      refine hmem.trans ?_
      show _ ↔ Waits (log ++ [.cancelled d]) x
      rw [waits_concat, h.waits]
      simp [Mark.Ends, eq_comm]
    · show k.deadlines.running = true ↔ .stopped ∉ log ++ [.cancelled d]
      simp [h.running]
    · exact ((Deadlines.mem_cancel ..).1 hx).1
  | stop =>
    refine ⟨fun x => ?_, .nil, ?_, h.fits.roused fun _ => rfl⟩
    · show x ∈ [] ↔ Waits (log ++ [.stopped]) x
      simp [waits_concat, Mark.Ends]
    · show false = true ↔ .stopped ∉ log ++ [.stopped]
      simp
  | stir =>
    show Tells (log ++ []) _
    rw [List.append_nil]
    exact tells_same h (h.fits.roused id)
  | clock now =>
    obtain ⟨s, hs, -, hstep⟩ | ⟨d, es, hentries, -, -, hstep⟩ := clock_cases h now
    · simpa [marks, Event.mark, hstep] using tells_same h hs
    · simpa [marks, Event.mark, hstep] using tells_called h hentries

theorem Tells.run (h : Tells log k) (es : List Event) : Tells (log ++ k.log es) (k.after es) := by
  induction es generalizing log k with
  | nil => simpa [Keeper.log, after] using h
  | cons e es ih =>
    rw [Keeper.log, ← List.append_assoc]
    exact ih (h.step e)

/-- As often as the clock shows a time, so many of the deadlines that are due by then are called
out, one after another. -/
theorem Tells.called (h : Tells log k) (now n : Nat) :
    k.log (List.replicate n (.clock now)) = ((k.deadlines.due now).take n).map .called ∧
      ((k.deadlines.due now).length ≤ n →
        (k.after (List.replicate n (.clock now))).deadlines = (k.deadlines.service now).1) := by
  induction n generalizing log k with
  | zero =>
    refine ⟨rfl, fun hle => ?_⟩
    rw [Deadlines.service_of_due_nil (List.eq_nil_of_length_eq_zero (Nat.le_zero.1 hle))]
    rfl
  | succ n ih =>
    rw [List.replicate_succ, Keeper.log, after, marks]
    obtain ⟨s, hs, hdue, hstep⟩ | ⟨d, es, hentries, hrunning, hle, hstep⟩ := clock_cases h now
    · obtain ⟨hlog, hafter⟩ := ih (tells_same h hs)
      rw [hdue] at hlog hafter ⊢
      rw [hstep, hlog]
      exact ⟨by simp [Event.mark], fun _ => hafter (Nat.zero_le n)⟩
    · obtain ⟨hlog, hafter⟩ := ih (tells_called h hentries)
      rw [Deadlines.due_of_cons hrunning hentries hle, hstep, hlog]
      refine ⟨by simp [Event.mark], fun hlength => ?_⟩
      rw [hafter (Nat.le_of_succ_le_succ hlength)]
      exact Deadlines.service_of_cons hrunning hentries hle

theorem Tells.stopped (h : Tells log k) (hstopped : .stopped ∈ log) (es : List Event)
    (d : Deadline) : .called d ∉ k.log es := by
  induction es generalizing log k with
  | nil => exact List.not_mem_nil
  | cons e es ih =>
    rw [Keeper.log, List.mem_append, not_or]
    refine ⟨?_, ih (h.step e) (List.mem_append_left _ hstopped)⟩
    cases e with
    | clock now =>
      obtain ⟨s, -, -, hstep⟩ | ⟨first, rest, -, hrunning, -, -⟩ := clock_cases h now
      · simp [marks, Event.mark, hstep]
      · exact absurd hstopped (h.running.1 hrunning)
    | _ => simp [marks, Event.mark, Keeper.step]

theorem stopped_mem_marks {e : Event} : .stopped ∈ k.marks e ↔ e = .stop := by
  cases e <;> simp [marks, Event.mark, Keeper.step]

theorem stopped_mem_log {es : List Event} : .stopped ∈ k.log es ↔ .stop ∈ es := by
  induction es generalizing k with
  | nil => simp [Keeper.log]
  | cons e es ih =>
    rw [Keeper.log, List.mem_append, stopped_mem_marks, ih, List.mem_cons, eq_comm]

theorem Tells.schedule_again (h : Tells log k) (hd : Waits log d) :
    k.step (.schedule d) = (k, none) := by
  have hmem := (h.waits d).2 hd
  have hleads : leads d k.deadlines = false := by
    cases hentries : k.deadlines.entries with
    | nil => simp [hentries] at hmem
    | cons first es => simpa [leads, hentries] using h.sorted.time_le hentries hmem
  rw [Keeper.step, h.sorted.schedule_of_mem hmem, hleads]
  rfl

theorem Tells.cancel_absent (h : Tells log k) (hd : ¬ Waits log d) :
    k.step (.cancel d) = (k, none) := by
  rw [Keeper.step, Deadlines.cancel_of_not_mem (mt (h.waits d).1 hd)]

/-- These deadlines are called out once the clock shows `now`, in the order of their times and then
of their numbers; those with a later time stay. It makes no difference whether they are served all
at once or as the clock is looked at. -/
structure CallsOut (es : List Event) (now : Nat) (due : List Deadline) : Prop where
  exactly : ∀ d, d ∈ due ↔ .stop ∉ es ∧ Waits (start.log es) d ∧ d.time ≤ now
  inOrder : due.Pairwise fun d e => d.time < e.time ∨ d.time = e.time ∧ d.id < e.id
  oneByOne : ∀ n, (start.after es).log (.replicate n (.clock now)) = (due.take n).map .called
  served : ((start.after es).deadlines.service now).2 = due.map (·.id)
  stays : ∀ d, d ∈ ((start.after es).deadlines.service now).1.entries ↔
    Waits (start.log es) d ∧ (now < d.time ∨ .stop ∈ es)
  same : ∀ n, due.length ≤ n → ((start.after es).after (.replicate n (.clock now))).deadlines =
    ((start.after es).deadlines.service now).1

structure Reliable (es : List Event) : Prop where
  calls : ∀ now, ∃ due, CallsOut es now due
  again : ∀ d, Waits (start.log es) d →
    (start.after es).step (.schedule d) = (start.after es, none)
  absent : ∀ d, ¬ Waits (start.log es) d →
    (start.after es).step (.cancel d) = (start.after es, none)
  stopped : .stop ∈ es → ∀ more d, .called d ∉ (start.after es).log more

/-- Whatever is scheduled and cancelled, whenever the clock is looked at and whatever the keeper is
roused by: what is called out at a time are the deadlines that wait and have passed by then, each
once and in order. To schedule one that waits or to cancel one that does not changes nothing, and
once everything is stopped nothing is called out. -/
theorem reliable_run (es : List Event) : Reliable es := by
  have h : Tells (start.log es) (start.after es) := tells_start.run es
  have hstopped : .stopped ∈ start.log es ↔ .stop ∈ es := stopped_mem_log
  refine ⟨fun now => ⟨(start.after es).deadlines.due now, ?_⟩, fun d => h.schedule_again,
    fun d => h.cancel_absent, fun hstop => h.stopped (hstopped.2 hstop)⟩
  exact
    { exactly := fun d => by rw [Deadlines.mem_due, h.running, hstopped, h.waits]
      inOrder := (h.sorted.due now).imp Deadlines.before_iff.1
      oneByOne := fun n => (h.called now n).1
      served := Deadlines.service_eq _ now
      stays := fun d => by
        have hrunning : (start.after es).deadlines.running = false ↔ .stop ∈ es := by
          rw [← hstopped, ← Bool.not_eq_true, h.running, not_not]
        rw [Deadlines.mem_service, h.waits, hrunning]
      same := fun n => (h.called now n).2 }

/-- Of two deadlines the later one is scheduled first, and a third one is cancelled. -/
theorem reliable_run_of_three :
    let es : List Event := [.schedule ⟨20, 1⟩, .clock 5, .schedule ⟨10, 2⟩, .schedule ⟨10, 3⟩,
      .cancel ⟨10, 3⟩]
    (∃ due, CallsOut es 20 due ∧ ⟨10, 2⟩ ∈ due ∧ ⟨20, 1⟩ ∈ due ∧ ⟨10, 3⟩ ∉ due) ∧
      (start.after es).step (.schedule ⟨10, 2⟩) = (start.after es, none) ∧
      (start.after es).step (.cancel ⟨10, 3⟩) = (start.after es, none) ∧
      .called ⟨10, 2⟩ ∉ (start.after (es ++ [.stop])).log [.clock 30] := by
  intro es
  have hwaits := (tells_start.run es).waits
  have hlate : Waits (start.log es) ⟨20, 1⟩ := (hwaits _).1 (by decide)
  have hearly : Waits (start.log es) ⟨10, 2⟩ := (hwaits _).1 (by decide)
  have hcancelled : ¬ Waits (start.log es) ⟨10, 3⟩ := mt (hwaits _).2 (by decide)
  have hstop : .stop ∉ es := by simp [es]
  obtain ⟨due, hdue⟩ := (reliable_run es).calls 20
  refine ⟨⟨due, hdue, (hdue.exactly _).2 ⟨hstop, hearly, by decide⟩,
    (hdue.exactly _).2 ⟨hstop, hlate, by decide⟩, fun h => hcancelled ((hdue.exactly _).1 h).2.1⟩,
    (reliable_run es).again _ hearly, (reliable_run es).absent _ hcancelled,
    (reliable_run (es ++ [.stop])).stopped (by simp) _ _⟩

/-- The earlier one is scheduled twice, and both have passed by the time the clock is looked at. -/
example : start.log [.schedule ⟨20, 1⟩, .clock 5, .schedule ⟨10, 2⟩, .schedule ⟨10, 2⟩, .clock 20,
    .clock 20, .clock 20, .stop, .clock 30] =
      [.scheduled ⟨20, 1⟩, .scheduled ⟨10, 2⟩, .scheduled ⟨10, 2⟩, .called ⟨10, 2⟩,
        .called ⟨20, 1⟩, .stopped] := by decide

end Keeper
end TupleClient
