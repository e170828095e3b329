import TupleClient.Proofs.Pipeline.Steps
import TupleClient.Proofs.Retry.StaleSchema

/-!
All that can happen to the retries, in the smallest parts, with the operations that are on their way
from one part to the next.
-/
namespace TupleClient

namespace Pipeline

variable {κ : Type}

/-- The connection breaks; its operations and its socket are still there. -/
def lose (p : Pipeline κ) (generation : Nat) (e : ClientError) : Pipeline κ × Report κ :=
  match p.cell.fail generation e with
  | (cell, true) => ({ p with cell := cell }, .entered .reconnecting)
  | (_, false) => (p, .silent)

end Pipeline

namespace Retry

variable {κ : Type}

/-- What comes to the retries. A connection may break in one event. Or its state changes first, and
then its operations come back one by one, in any order and with any outcome, and its socket is let
go, while other things happen in between. -/
inductive Incident (κ : Type) where
  | event (e : Event κ)
  | lost (generation : Nat) (e : ClientError)
  | ended (id : Nat) (outcome : Outcome)
  | torn (e : ClientError)

def meets (p : Pipeline (Owner κ)) : Incident κ → Pipeline (Owner κ) × Report (Owner κ)
  | .event (.signal s) => p.signal s
  | .event _ => (p, .silent)
  | .lost generation e => p.lose generation e
  | .ended id outcome => p.complete id outcome
  | .torn e => p.teardown e

def happen (r : Retry κ) : Incident κ → Retry κ × Report κ
  | .event e => r.step e
  | i => r.absorb (meets r.pipeline i)

def learned (r : Retry κ) : Incident κ → List (Note κ)
  | .event e => r.notes e
  | i => endings (meets r.pipeline i).2

def undergo (r : Retry κ) : List (Incident κ) → Retry κ
  | [] => r
  | i :: is => (r.happen i).1.undergo is

def record (r : Retry κ) : List (Incident κ) → List (Note κ)
  | [] => []
  | i :: is => r.learned i ++ (r.happen i).1.record is

def Incident.heading : Incident κ → List (Note κ)
  | .event (.signal s) => [.signalled s]
  | _ => []

def Event.now? : Event κ → Option Nat
  | .execute now _ _ _ _ => some now
  | .plain now _ _ _ _ => some now
  | .signal (.clock now) => some now
  | .signal _ => none
  | .clock now => some now
  | .expired _ => none
  | .replay now _ _ => some now
  | .resubmit now _ => some now
  | .refreshed now _ _ => some now

def Incident.now? : Incident κ → Option Nat
  | .event e => e.now?
  | _ => none

/-- Why the catalog could not be read for a replay. -/
def Event.missed? : Event κ → Option ClientError
  | .replay _ _ (.error e) => some e
  | .refreshed _ _ (.error e) => some e
  | _ => none

def Event.IsReplay : Event κ → Prop
  | .replay _ _ _ => True
  | _ => False

/-- How the retries stand in the middle of things. `back` has come back from the pipeline and `out`
is on its way there; `alive` says whether the connection lived when the first of `back` happened,
`replaying` whether a replay has begun and has taken nothing yet. -/
structure Stand (κ : Type) where
  retry : Retry κ
  alive : Bool
  back : List (Happening (Owner κ))
  out : List (Entry κ)
  replaying : Bool

/-- What goes over the socket, without what happened. -/
def traffic (report : Report (Owner κ)) : Report κ := ⟨[], report.written, report.hungUp⟩

def Owner.entry? : Owner κ → Option (Entry κ)
  | .entry e => some e
  | .plain _ => none

/-- One part of what an incident does, the notes that are taken of it and what is told. `n` is the
number of the next operation that comes in. -/
inductive Part (i : Incident κ) (n : Nat) :
    Stand κ → List (Note κ) → Report κ → Stand κ → Prop where
  | met {r : Retry κ} {alive replaying : Bool} {out : List (Entry κ)} :
      Part i n ⟨r, alive, [], out, replaying⟩ i.heading (traffic (meets r.pipeline i).2)
        ⟨{ r with pipeline := (meets r.pipeline i).1 }, r.pipeline.state.isAlive,
          (meets r.pipeline i).2.happenings, out, replaying⟩
  | plain {r : Retry κ} {alive : Bool} {now : Nat} {fault : Option String} {request : Request}
      {timeout : Option Nat} {tag : κ} {s : Submission (Owner κ)}
      (hi : i = .event (.plain now fault request timeout tag))
      (hs : s = ⟨request.type, request.message r.snapshot?, timeout, .plain tag⟩) :
      Part i n ⟨r, alive, [], [], false⟩ [.submitted now fault s]
        (traffic (r.pipeline.submit now fault s).2.1)
        ⟨{ r with pipeline := (r.pipeline.submit now fault s).1 }, r.pipeline.state.isAlive,
          (r.pipeline.submit now fault s).2.1.happenings, [], false⟩
  | sent {r : Retry κ} {alive replaying : Bool} {out : List (Entry κ)} {now : Nat}
      {fault : Option String} {s : Submission (Owner κ)} {e : Entry κ} (hnow : i.now? = some now)
      (he : e.staged.stage = .ready) (hs : r.submission? now e = some s) :
      Part i n ⟨r, alive, [], e :: out, replaying⟩ [.submitted now fault s]
        (traffic (r.pipeline.submit now fault s).2.1)
        ⟨{ r with pipeline := (r.pipeline.submit now fault s).1 }, r.pipeline.state.isAlive,
          (r.pipeline.submit now fault s).2.1.happenings, out, replaying⟩
  | overdue {r : Retry κ} {alive replaying : Bool} {out : List (Entry κ)} {now : Nat}
      {e : Entry κ} (hnow : i.now? = some now) (he : remaining e.deadline now = none) :
      Part i n ⟨r, alive, [], e :: out, replaying⟩ []
        (.ended e.tag (.error (.timeout .operation))) ⟨r, alive, [], out, replaying⟩
  | entered {r : Retry κ} {alive replaying : Bool} {back : List (Happening (Owner κ))}
      {out : List (Entry κ)} {s : Lifecycle.State} :
      Part i n ⟨r, alive, .entered s :: back, out, replaying⟩ [] (r.entered s).2
        ⟨(r.entered s).1, s.isAlive, back, out, replaying⟩
  | told {r : Retry κ} {alive replaying : Bool} {back : List (Happening (Owner κ))}
      {out : List (Entry κ)} {tag : κ} {outcome : Outcome} :
      Part i n ⟨r, alive, .ended (.plain tag) outcome :: back, out, replaying⟩
        [.ended (.plain tag) outcome] (.ended tag outcome) ⟨r, alive, back, out, replaying⟩
  | settled {r : Retry κ} {alive replaying : Bool} {back : List (Happening (Owner κ))}
      {out : List (Entry κ)} {e : Entry κ} {outcome : Outcome} :
      Part i n ⟨r, alive, .ended (.entry e) outcome :: back, out, replaying⟩
        [.ended (.entry e) outcome] (r.settle alive e outcome).2
        ⟨(r.settle alive e outcome).1, alive, back, out, replaying⟩
  | accepted {r : Retry κ} {alive : Bool} {now : Nat} {fault : Option String}
      {request : Request} {timeout : Option Nat} {tag : κ}
      (hi : i = .event (.execute now fault request timeout tag)) (hn : r.nextEntry = n) :
      Part i n ⟨r, alive, [], [], false⟩ [] .silent
        ⟨{ r with nextEntry := r.nextEntry + 1 }, alive, [],
          [⟨r.nextEntry, .ready request, timeout.map (now + ·), tag⟩], false⟩
  | begun {r : Retry κ} {alive : Bool} {e : Event κ} (hi : i = .event e) (he : e.IsReplay) :
      Part i n ⟨r, alive, [], [], false⟩ [] .silent
        ⟨{ r with replays := r.replays - 1 }, alive, [], [], true⟩
  | read {r : Retry κ} {alive replaying : Bool} {s : Catalog.Snapshot} :
      Part i n ⟨r, alive, [], [], replaying⟩ [.refreshed s] .silent
        ⟨(r.install s).preflightDone, alive, [], [], replaying⟩
  | unread {r : Retry κ} {alive replaying : Bool} {event : Event κ} {e : ClientError}
      (hi : i = .event event) (he : event.missed? = some e)
      (hreplaying : replaying = true → event.IsReplay ∧ r.needsRefresh = true) :
      Part i n ⟨r, alive, [], [], replaying⟩ []
        (if e.isTransient then .silent else (r.failWaiting e).2)
        ⟨if e.isTransient then r else (r.failWaiting e).1, alive, [], [], false⟩
  | taken {r : Retry κ} {alive replaying : Bool} :
      Part i n ⟨r, alive, [], [], replaying⟩ [] .silent
        ⟨{ r with parked := r.parked.filter (!isReady ·) }, alive, [], r.parked.filter isReady,
          false⟩
  | unscheduled {r : Retry κ} {alive replaying : Bool} {out : List (Entry κ)} {e : Entry κ} :
      Part i n ⟨r, alive, [], e :: out, replaying⟩ [] .silent
        ⟨r.unschedule e, alive, [], e :: out, replaying⟩
  | expired {r : Retry κ} {alive : Bool} {id : Nat} (hi : i = .event (.expired id)) :
      Part i n ⟨r, alive, [], [], false⟩ [] (r.expire id).2 ⟨(r.expire id).1, alive, [], [], false⟩
  | ticked {r : Retry κ} {alive : Bool} {now : Nat} (hi : i = .event (.clock now)) :
      Part i n ⟨r, alive, [], [], false⟩ [] (r.tick now).2 ⟨(r.tick now).1, alive, [], [], false⟩

inductive Parts (i : Incident κ) (n : Nat) :
    Stand κ → List (Note κ) → Report κ → Stand κ → Prop where
  | none (x : Stand κ) : Parts i n x [] .silent x
  | more {x y z : Stand κ} {notes more : List (Note κ)} {r s : Report κ}
      (first : Part i n x notes r y) (rest : Parts i n y more s z) :
      Parts i n x (notes ++ more) (r.andThen s) z

variable {i : Incident κ} {n : Nat} {x y z : Stand κ} {first more : List (Note κ)}
  {report last : Report κ}
  {r : Retry κ} {alive replaying : Bool} {out : List (Entry κ)}

theorem Part.parts (h : Part i n x first report y) : Parts i n x first report y := by
  simpa [Report.andThen_silent] using Parts.more h (.none y)

theorem Parts.andThen (h : Parts i n x first report y) (g : Parts i n y more last z) :
    Parts i n x (first ++ more) (report.andThen last) z := by
  induction h with
  | none x => simpa [Report.silent_andThen] using g
  | more part _ ih =>
    rw [List.append_assoc, Report.andThen_assoc]
    exact .more part (ih g)

def aliveAfter (alive : Bool) (back : List (Happening (Owner κ))) : Bool :=
  (((⟨back, [], false⟩ : Report (Owner κ)).states.getLast?).map (·.isAlive)).getD alive

theorem aliveAfter_entered (s : Lifecycle.State) (back : List (Happening (Owner κ))) :
    aliveAfter alive (.entered s :: back) = aliveAfter s.isAlive back := by
  have hstates : (⟨.entered s :: back, [], false⟩ : Report (Owner κ)).states =
      s :: (⟨back, [], false⟩ : Report (Owner κ)).states := rfl
  unfold aliveAfter
  rw [hstates, List.getLast?_cons]
  cases (⟨back, [], false⟩ : Report (Owner κ)).states.getLast? <;> simp

theorem aliveAfter_ended (o : Owner κ) (outcome : Outcome) (back : List (Happening (Owner κ))) :
    aliveAfter alive (.ended o outcome :: back) = aliveAfter alive back := rfl

theorem parts_follow (alive : Bool) (back : List (Happening (Owner κ))) :
    Parts i n ⟨r, alive, back, out, replaying⟩ (endings ⟨back, [], false⟩) (r.follow alive back).2
      ⟨(r.follow alive back).1, aliveAfter alive back, [], out, replaying⟩ := by
  induction back generalizing r alive with
  | nil => exact .none _
  | cons h back ih =>
    cases h with
    | entered s =>
      rw [aliveAfter_entered]
      exact .more .entered (ih s.isAlive)
    | ended o outcome =>
      rw [aliveAfter_ended]
      cases o with
      | plain tag => exact .more .told (ih alive)
      | entry e => exact .more .settled (ih alive)

theorem entered_quiet (s : Lifecycle.State) :
    (r.entered s).2.written = [] ∧ (r.entered s).2.hungUp = false := by
  cases s <;> exact ⟨rfl, rfl⟩

theorem settle_quiet (e : Entry κ) (outcome : Outcome) :
    (r.settle alive e outcome).2.written = [] ∧ (r.settle alive e outcome).2.hungUp = false := by
  obtain ⟨last, htold⟩ | ⟨parked, deadlines, replays, hparked⟩ := settle_kept r alive e outcome
  · rw [htold]
    exact ⟨rfl, rfl⟩
  · rw [hparked]
    exact ⟨rfl, rfl⟩

theorem follow_quiet (alive : Bool) (back : List (Happening (Owner κ))) :
    (r.follow alive back).2.written = [] ∧ (r.follow alive back).2.hungUp = false := by
  induction back generalizing r alive with
  | nil => exact ⟨rfl, rfl⟩
  | cons h back ih =>
    cases h with
    | entered s =>
      obtain ⟨hwritten, hhungUp⟩ := ih (r := (r.entered s).1) s.isAlive
      simp [follow, Report.andThen, entered_quiet, hwritten, hhungUp]
    | ended o outcome =>
      cases o with
      | plain tag =>
        obtain ⟨hwritten, hhungUp⟩ := ih (r := r) alive
        simp [follow, Report.andThen, Report.ended, hwritten, hhungUp]
      | entry e =>
        obtain ⟨hwritten, hhungUp⟩ := ih (r := (r.settle alive e outcome).1) alive
        simp [follow, Report.andThen, settle_quiet, hwritten, hhungUp]

theorem absorb_report (step : Pipeline (Owner κ) × Report (Owner κ)) :
    (r.absorb step).2 = (traffic step.2).andThen
      (follow { r with pipeline := step.1 } r.pipeline.state.isAlive step.2.happenings).2 := by
  obtain ⟨hwritten, hhungUp⟩ := follow_quiet (r := { r with pipeline := step.1 })
    r.pipeline.state.isAlive step.2.happenings
  simp [absorb, traffic, Report.andThen, hwritten, hhungUp]

theorem parts_absorb {notes : List (Note κ)} {p : Pipeline (Owner κ)} {report : Report (Owner κ)}
    {before : List (Entry κ)}
    (h : Part i n ⟨r, alive, [], before, replaying⟩ notes (traffic report)
      ⟨{ r with pipeline := p }, r.pipeline.state.isAlive, report.happenings, out, replaying⟩) :
    Parts i n ⟨r, alive, [], before, replaying⟩ (notes ++ endings report) (r.absorb (p, report)).2
      ⟨(r.absorb (p, report)).1, aliveAfter r.pipeline.state.isAlive report.happenings, [], out,
        replaying⟩ := by
  rw [absorb_report]
  exact .more h (parts_follow _ _)

theorem remaining_none_of_submission? {now : Nat} {e : Entry κ} (he : e.staged.stage = .ready)
    (h : r.submission? now e = none) : remaining e.deadline now = none := by
  unfold submission? at h
  rw [send_of_ready he] at h
  cases hremaining : remaining e.deadline now with
  | none => rfl
  | some timeout => simp [hremaining] at h

theorem submit_of_submission? {now : Nat} {fault : Option String} {e : Entry κ}
    {s : Submission (Owner κ)} (h : r.submission? now e = some s) :
    r.submit now fault e =
      r.absorb ((r.pipeline.submit now fault s).1, (r.pipeline.submit now fault s).2.1) := by
  unfold submission? at h
  unfold submit
  cases hremaining : remaining e.deadline now with
  | none => simp [hremaining] at h
  | some timeout =>
    rw [hremaining] at h
    generalize e.staged.send = sending at h ⊢
    obtain ⟨staged, _ | request⟩ := sending
    · cases h
    · cases h
      rfl

theorem parts_submit {now : Nat} (fault : Option String) {e : Entry κ} (hnow : i.now? = some now)
    (he : e.staged.stage = .ready) :
    ∃ after, Parts i n ⟨r, alive, [], e :: out, replaying⟩ (r.notesOfSubmit now fault e)
      (r.submit now fault e).2 ⟨(r.submit now fault e).1, after, [], out, replaying⟩ := by
  unfold notesOfSubmit
  cases hs : r.submission? now e with
  | some s =>
    rw [submit_of_submission? hs]
    exact ⟨_, parts_absorb (.sent hnow he hs)⟩
  | none =>
    have hremaining := remaining_none_of_submission? he hs
    rw [submit, hremaining]
    exact ⟨alive, (Part.overdue hnow hremaining).parts⟩

theorem parts_submitAll {now : Nat} (fault : Option String) {es : List (Entry κ)}
    (hnow : i.now? = some now) (hes : ∀ e ∈ es, e.staged.stage = .ready) :
    ∃ after, Parts i n ⟨r, alive, [], es, replaying⟩ (r.notesOfAll now fault es)
      (r.submitAll now fault es).2 ⟨(r.submitAll now fault es).1, after, [], [], replaying⟩ := by
  induction es generalizing r alive with
  | nil => exact ⟨alive, .none _⟩
  | cons e es ih =>
    obtain ⟨he, hes⟩ := List.forall_mem_cons.1 hes
    obtain ⟨mid, hfirst⟩ : ∃ mid, Parts i n ⟨r.unschedule e, alive, [], e :: es, replaying⟩ _ _
        ⟨((r.unschedule e).submit now fault e).1, mid, [], es, replaying⟩ :=
      parts_submit fault hnow he
    obtain ⟨after, hrest⟩ :
        ∃ after, Parts i n ⟨_, mid, [], es, replaying⟩ _ _ ⟨_, after, [], [], _⟩ :=
      ih (r := ((r.unschedule e).submit now fault e).1) hes
    have hall := (Part.unscheduled (i := i) (n := n)).parts.andThen (hfirst.andThen hrest)
    rw [List.nil_append, Report.silent_andThen] at hall
    exact ⟨after, hall⟩

theorem parts_resubmit {now : Nat} (fault : Option String) (hnow : i.now? = some now) :
    ∃ after, Parts i n ⟨r, alive, [], [], replaying⟩ (r.notesOfResubmit now fault)
      (r.resubmit now fault).2 ⟨(r.resubmit now fault).1, after, [], [], false⟩ := by
  obtain ⟨after, hall⟩ : ∃ after, Parts i n
      ⟨{ r with parked := r.parked.filter (!isReady ·) }, alive, [], r.parked.filter isReady, false⟩
      _ _ ⟨_, after, [], [], false⟩ :=
    parts_submitAll fault hnow fun e he => isReady_iff.1 (List.mem_filter.1 he).2
  have htaken : Parts i n ⟨r, alive, [], [], replaying⟩ _ _ _ := Part.taken.parts
  have hboth := htaken.andThen hall
  rw [List.nil_append, Report.silent_andThen] at hboth
  exact ⟨after, hboth⟩

theorem parts_replayAfter {now : Nat} (fault : Option String) {e : Event κ}
    {result : Except ClientError Catalog.Snapshot} (hnow : e.now? = some now)
    (hmissed : ∀ error, result = .error error → e.missed? = some error)
    (hreplaying : replaying = true → e.IsReplay ∧ r.needsRefresh = true) :
    ∃ after, Parts (.event e) n ⟨r, alive, [], [], replaying⟩ (r.notesAfter now fault result)
      (r.replayAfter now fault result).2
      ⟨(r.replayAfter now fault result).1, after, [], [], false⟩ := by
  cases result with
  | ok s =>
    obtain ⟨after, hall⟩ : ∃ after, Parts (.event e) n
        ⟨(r.install s).preflightDone, alive, [], [], replaying⟩ _ _ ⟨_, after, [], [], false⟩ :=
      parts_resubmit fault hnow
    exact ⟨after, .more .read hall⟩
  | error error =>
    have hunread : Parts (.event e) n ⟨r, alive, [], [], replaying⟩ _ _ _ :=
      (Part.unread rfl (hmissed error rfl) hreplaying).parts
    refine ⟨alive, ?_⟩
    unfold replayAfter
    by_cases htransient : error.isTransient = true
    · simpa [htransient, notesAfter] using hunread
    · simpa [htransient, notesAfter] using hunread

theorem parts_replay {now : Nat} (fault : Option String)
    (refreshed : Except ClientError Catalog.Snapshot) :
    ∃ after, Parts (.event (.replay now fault refreshed)) n ⟨r, alive, [], [], false⟩
      (r.notesOfReplay now fault refreshed) (r.replay now fault refreshed).2
      ⟨(r.replay now fault refreshed).1, after, [], [], false⟩ := by
  have hreplay : (Event.replay now fault refreshed : Event κ).IsReplay := trivial
  have hbegun : Parts (.event (.replay now fault refreshed)) n ⟨r, alive, [], [], false⟩ _ _ _ :=
    (Part.begun rfl hreplay).parts
  unfold notesOfReplay replay
  by_cases hneeds : ({ r with replays := r.replays - 1 } : Retry κ).needsRefresh = true
  · obtain ⟨after, hall⟩ : ∃ after, Parts (.event (.replay now fault refreshed)) n
        ⟨{ r with replays := r.replays - 1 }, alive, [], [], true⟩ _
        (Retry.replayAfter { r with replays := r.replays - 1 } now fault refreshed).2
        ⟨_, after, [], [], false⟩ :=
      parts_replayAfter fault rfl (by rintro error rfl; rfl) fun _ => ⟨hreplay, hneeds⟩
    have hboth := hbegun.andThen hall
    rw [List.nil_append, Report.silent_andThen] at hboth
    simp only [hneeds, if_true]
    exact ⟨after, hboth⟩
  · obtain ⟨after, hall⟩ : ∃ after, Parts (.event (.replay now fault refreshed)) n
        ⟨{ r with replays := r.replays - 1 }, alive, [], [], true⟩ _ _ ⟨_, after, [], [], false⟩ :=
      parts_resubmit fault rfl
    have hboth := hbegun.andThen hall
    rw [List.nil_append, Report.silent_andThen] at hboth
    simp only [hneeds]
    exact ⟨after, hboth⟩

theorem parts_happen (r : Retry κ) (alive : Bool) (i : Incident κ) :
    ∃ after, Parts i r.nextEntry ⟨r, alive, [], [], false⟩ (r.learned i) (r.happen i).2
      ⟨(r.happen i).1, after, [], [], false⟩ := by
  cases i with
  | event e =>
    cases e with
    | execute now fault request timeout tag =>
      let e : Entry κ := ⟨r.nextEntry, .ready request, timeout.map (now + ·), tag⟩
      obtain ⟨after, hall⟩ : ∃ after, Parts (.event (.execute now fault request timeout tag))
          r.nextEntry ⟨{ r with nextEntry := r.nextEntry + 1 }, alive, [], [e], false⟩ _ _
          ⟨_, after, [], [], false⟩ := parts_submit fault rfl rfl
      have hboth := (Part.accepted rfl rfl).parts.andThen hall
      rw [List.nil_append, Report.silent_andThen] at hboth
      exact ⟨after, hboth⟩
    | plain now fault request timeout tag =>
      exact ⟨_, parts_absorb (.plain rfl rfl)⟩
    | signal s => exact ⟨_, parts_absorb .met⟩
    | clock now => exact ⟨alive, (Part.ticked rfl).parts⟩
    | expired id => exact ⟨alive, (Part.expired rfl).parts⟩
    | replay now fault refreshed => exact parts_replay fault refreshed
    | resubmit now fault => exact parts_resubmit fault rfl
    | refreshed now fault result =>
      refine parts_replayAfter fault rfl ?_ (by simp)
      rintro error rfl
      rfl
  | lost generation e => exact ⟨_, parts_absorb .met⟩
  | ended id outcome => exact ⟨_, parts_absorb .met⟩
  | torn e => exact ⟨_, parts_absorb .met⟩

end Retry
end TupleClient
