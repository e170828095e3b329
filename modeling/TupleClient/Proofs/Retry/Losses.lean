import TupleClient.Proofs.Retry.Steps

/-!
How a connection is lost: its socket is let go with it, the loss is told once, and where there is no
socket there is nothing to lose and nothing is written.
-/
namespace TupleClient

variable {κ κ' : Type}

/-- From one pipeline to the next. A step does nothing to a socket that is not there; of one that is
it may tell that it is lost, or that all is closed, which lasts. -/
structure Loses (p q : Pipeline κ') (r : Report κ) : Prop where
  quiet : p.socket = none →
    q.socket = none ∧ r.written = [] ∧ r.hungUp = false ∧ .reconnecting ∉ r.states
  lost : .reconnecting ∈ r.states → q.socket = none
  once : r.states.count .reconnecting ≤ 1
  letGo : r.hungUp = true → q.socket = none
  closed : .closed ∈ r.states → q.state = .closed ∧ q.socket = none
  kept : p.state = .closed → q.state = .closed

variable {p q last : Pipeline κ'} {r s : Report κ}

theorem Loses.of_quiet (hsocket : p.socket = none → q.socket = none)
    (hkept : p.state = .closed → q.state = .closed) (hreconnecting : .reconnecting ∉ r.states)
    (hclosed : .closed ∉ r.states) (hwritten : r.written = []) (hhungUp : r.hungUp = false) :
    Loses p q r where
  quiet h := ⟨hsocket h, hwritten, hhungUp, hreconnecting⟩
  lost h := absurd h hreconnecting
  once := by simp [List.count_eq_zero_of_not_mem hreconnecting]
  letGo h := by simp [hhungUp] at h
  closed h := absurd h hclosed
  kept := hkept

theorem Loses.of_eq (hsocket : q.socket = p.socket) (hstate : q.state = p.state)
    (hstates : r.states = []) (hwritten : r.written = []) (hhungUp : r.hungUp = false) :
    Loses p q r :=
  .of_quiet (by simp [hsocket]) (by simp [hstate]) (by simp [hstates]) (by simp [hstates]) hwritten
    hhungUp

theorem Loses.silent (p : Pipeline κ') : Loses p p (.silent : Report κ) :=
  .of_eq rfl rfl rfl rfl rfl

theorem Loses.andThen (h : Loses p q r) (g : Loses q last s) : Loses p last (r.andThen s) where
  quiet hnone := by
    obtain ⟨hmid, hwritten, hhungUp, hstates⟩ := h.quiet hnone
    obtain ⟨hafter, hwritten', hhungUp', hstates'⟩ := g.quiet hmid
    refine ⟨hafter, by simp [Report.andThen, hwritten, hwritten'],
      by simp [Report.andThen, hhungUp, hhungUp'], ?_⟩
    simp [Report.states_andThen, hstates, hstates']
  lost hstates := by
    rw [Report.states_andThen, List.mem_append] at hstates
    exact hstates.elim (fun hr => (g.quiet (h.lost hr)).1) g.lost
  once := by
    rw [Report.states_andThen, List.count_append]
    by_cases hr : .reconnecting ∈ r.states
    · rw [List.count_eq_zero_of_not_mem (g.quiet (h.lost hr)).2.2.2]
      exact h.once
    · rw [List.count_eq_zero_of_not_mem hr, Nat.zero_add]
      exact g.once
  letGo hhungUp := by
    rcases Bool.or_eq_true_iff.1 hhungUp with hr | hs
    · exact (g.quiet (h.letGo hr)).1
    · exact g.letGo hs
  closed hstates := by
    rw [Report.states_andThen, List.mem_append] at hstates
    rcases hstates with hr | hs
    · obtain ⟨hstate, hsocket⟩ := h.closed hr
      exact ⟨g.kept hstate, (g.quiet hsocket).1⟩
    · exact g.closed hs
  kept hclosed := g.kept (h.kept hclosed)

namespace Pipeline

variable {p q : Pipeline κ} {x : Event κ}

/-- Signals that bring a socket, or the first state, or tell of a loss from outside. -/
def Event.IsNew : Event κ → Prop
  | .signal .supervised => True
  | .signal (.attached _ _ _ _) => True
  | .signal (.broken _ _) => True
  | _ => False

theorem loses_failed (hsocket : p.socket.isSome) (hopen : p.state ≠ .closed) (e : ClientError) :
    Loses p (teardown { p with cell := p.cell.enter .reconnecting (some e) } e).1
      ((Report.entered .reconnecting).andThen
        (teardown { p with cell := p.cell.enter .reconnecting (some e) } e).2) := by
  have hstates : ((Report.entered .reconnecting).andThen
      (teardown { p with cell := p.cell.enter .reconnecting (some e) } e).2).states =
        [.reconnecting] := by
    rw [Report.states_andThen, states_teardown]
    rfl
  exact
    { quiet := fun h => by simp [h] at hsocket
      lost := fun _ => rfl
      once := by simp [hstates]
      letGo := fun _ => rfl
      closed := by simp [hstates]
      kept := fun h => absurd h hopen }

theorem loses_fail (hsocket : p.socket.isSome) (generation : Nat) (e : ClientError) :
    Loses p (p.fail generation e).1 (p.fail generation e).2.1 := by
  unfold fail
  split
  · rename_i cell hfail
    obtain ⟨hopen, rfl⟩ := enter_of_fail hfail
    exact loses_failed hsocket hopen e
  · exact .silent p

theorem Part.loses (h : Part x p r q) (hx : ¬ x.IsNew) : Loses p q r := by
  cases h with
  | supervised hsupervised h => exact absurd (hsupervised ▸ trivial) hx
  | attached hattached h => exact absurd (hattached ▸ trivial) hx
  | detached hdetached h => exact absurd (hdetached ▸ trivial) hx
  | @failed e hsocket he h =>
    refine loses_failed (hsocket.resolve_right fun hbreak => hx ?_) h e
    unfold Event.IsBreak at hbreak
    split at hbreak
    · trivial
    · exact hbreak.elim
  | @closed e hclosed h =>
    have hstates : ((Report.entered .closed).andThen
        (teardown { p with cell := p.cell.enter .closed (some e) } e).2).states = [.closed] := by
      rw [Report.states_andThen, states_teardown]
      rfl
    exact
      { quiet := fun hnone => ⟨rfl, rfl,
          by simp [teardown, Report.andThen, Report.entered, hnone], by simp [hstates]⟩
        lost := by simp [hstates]
        once := by simp [hstates]
        letGo := fun _ => rfl
        closed := fun _ => ⟨rfl, rfl⟩
        kept := fun _ => rfl }
  | sought hx h =>
    exact .of_quiet id (by simp [h]) (by simp [Report.entered, Report.states])
      (by simp [Report.entered, Report.states]) rfl rfl
  | @started generation loop s hx h =>
    obtain ⟨hopen, hup⟩ := Lifecycle.open_of_afterStart h
    exact .of_quiet id (fun hclosed => absurd hclosed hopen)
      (by simp [Report.entered, Report.states, hup.1.symm])
      (by simp [Report.entered, Report.states, hup.2.symm]) rfl rfl
  | @ticked now hclock =>
    have honly := onlyEnds_tick p now
    exact .of_eq honly.socket (by simp [state, honly.cell]) honly.states honly.written honly.hungUp
  | wrote hsocket =>
    exact
      { quiet := fun hnone => by simp [hnone] at hsocket
        lost := by simp [Report.writing, Report.states]
        once := by simp [Report.writing, Report.states]
        letGo := by simp [Report.writing]
        closed := by simp [Report.writing, Report.states]
        kept := id }
  | changed hcell hpending hnext hdeadlines hsocket =>
    refine .of_quiet (fun hnone => ?_) (by simp [state, hcell])
      (by simp [Report.silent, Report.states]) (by simp [Report.silent, Report.states]) rfl rfl
    rw [hnone] at hsocket
    simpa using hsocket
  | _ => exact .of_eq rfl rfl rfl rfl rfl

theorem Parts.loses (h : Parts x p r q) (hx : ¬ x.IsNew) : Loses p q r := by
  induction h with
  | none p => exact .silent p
  | more first _ ih => exact (first.loses hx).andThen ih

end Pipeline

namespace Retry

variable {r : Retry κ}

theorem states_settle (alive : Bool) (e : Entry κ) (outcome : Outcome) :
    (r.settle alive e outcome).2.states = [] := by
  obtain ⟨last, htold⟩ | ⟨parked, deadlines, replays, hparked⟩ := settle_kept r alive e outcome
  · rw [htold]
    rfl
  · rw [hparked]
    rfl

theorem states_entered (s : Lifecycle.State) : (r.entered s).2.states = [s] := by
  cases s with
  | closed => simp [entered, failAll, Report.states, Report.andThen, Report.entered]
  | _ => rfl

theorem states_follow (alive : Bool) (back : List (Happening (Owner κ))) :
    (r.follow alive back).2.states = (⟨back, [], false⟩ : Report (Owner κ)).states := by
  induction back generalizing r alive with
  | nil => rfl
  | cons h back ih =>
    cases h with
    | entered s =>
      rw [follow, Report.states_andThen, states_entered, ih]
      rfl
    | ended o outcome =>
      cases o with
      | plain tag =>
        rw [follow, Report.states_andThen, ih]
        rfl
      | entry e =>
        rw [follow, Report.states_andThen, states_settle, ih]
        rfl

theorem loses_absorb {p : Pipeline (Owner κ)} {report : Report (Owner κ)}
    (h : Loses r.pipeline p report) :
    Loses r.pipeline (r.absorb (p, report)).1.pipeline (r.absorb (p, report)).2 := by
  have hstates : (r.absorb (p, report)).2.states = report.states :=
    states_follow r.pipeline.state.isAlive report.happenings
  rw [pipeline_absorb]
  exact
    { quiet := fun hnone => hstates ▸ h.quiet hnone
      lost := fun hlost => h.lost (hstates ▸ hlost)
      once := hstates ▸ h.once
      letGo := h.letGo
      closed := fun hclosed => h.closed (hstates ▸ hclosed)
      kept := h.kept }

theorem loses_signal {s : Signal}
    (hs : ¬ (Pipeline.Event.signal s : Pipeline.Event (Owner κ)).IsNew) :
    Loses r.pipeline (r.signal s).1.pipeline (r.signal s).2 :=
  loses_absorb ((Pipeline.parts_step r.pipeline (.signal s)).loses hs)

theorem loses_broken (hsocket : r.pipeline.socket.isSome) (generation : Nat) (e : ClientError) :
    Loses r.pipeline (r.signal (.broken generation e)).1.pipeline
      (r.signal (.broken generation e)).2 :=
  loses_absorb (Pipeline.loses_fail hsocket generation e)

theorem loses_submitPlain (now : Nat) (fault : Option String) (request : Request)
    (timeout : Option Nat) (tag : κ) :
    Loses r.pipeline (r.submitPlain now fault request timeout tag).1.pipeline
      (r.submitPlain now fault request timeout tag).2 :=
  loses_absorb ((Pipeline.parts_submit ..).loses id)

theorem loses_submit (now : Nat) (fault : Option String) (e : Entry κ) :
    Loses r.pipeline (r.submit now fault e).1.pipeline (r.submit now fault e).2 := by
  unfold submit
  split
  · exact .of_eq rfl rfl rfl rfl rfl
  · split
    · exact .silent r.pipeline
    · exact loses_absorb ((Pipeline.parts_submit ..).loses id)

theorem loses_submitAll (now : Nat) (fault : Option String) (es : List (Entry κ)) :
    Loses r.pipeline (r.submitAll now fault es).1.pipeline (r.submitAll now fault es).2 := by
  induction es generalizing r with
  | nil => exact .silent r.pipeline
  | cons e es ih =>
    obtain ⟨deadlines, hunscheduled⟩ := unschedule_eq r e
    have hfirst := loses_submit (r := r.unschedule e) now fault e
    rw [hunscheduled] at hfirst
    rw [submitAll, hunscheduled]
    exact hfirst.andThen ih

theorem loses_resubmit (now : Nat) (fault : Option String) :
    Loses r.pipeline (r.resubmit now fault).1.pipeline (r.resubmit now fault).2 :=
  loses_submitAll (r := { r with parked := r.parked.filter (!isReady ·) }) now fault _

theorem loses_replayAfter (now : Nat) (fault : Option String)
    (result : Except ClientError Catalog.Snapshot) :
    Loses r.pipeline (r.replayAfter now fault result).1.pipeline
      (r.replayAfter now fault result).2 := by
  cases result with
  | ok s => exact loses_resubmit (r := (r.install s).preflightDone) now fault
  | error e =>
    unfold replayAfter
    by_cases htransient : e.isTransient = true
    · simpa [htransient] using Loses.silent r.pipeline
    · simp only [htransient]
      exact .of_eq rfl rfl (by simp [failWaiting, Report.states]) rfl rfl

theorem loses_replay (now : Nat) (fault : Option String)
    (refreshed : Except ClientError Catalog.Snapshot) :
    Loses r.pipeline (r.replay now fault refreshed).1.pipeline
      (r.replay now fault refreshed).2 := by
  unfold replay
  simp only
  split
  · exact loses_replayAfter (r := { r with replays := r.replays - 1 }) now fault refreshed
  · exact loses_resubmit (r := { r with replays := r.replays - 1 }) now fault

theorem loses_expire (id : Nat) : Loses r.pipeline (r.expire id).1.pipeline (r.expire id).2 := by
  unfold expire
  split
  · exact .of_eq rfl rfl rfl rfl rfl
  · exact .silent r.pipeline

theorem loses_expireAll (ids : List Nat) :
    Loses r.pipeline (r.expireAll ids).1.pipeline (r.expireAll ids).2 := by
  induction ids generalizing r with
  | nil => exact .silent r.pipeline
  | cons id ids ih => exact (loses_expire id).andThen ih

theorem loses_tick (now : Nat) : Loses r.pipeline (r.tick now).1.pipeline (r.tick now).2 :=
  loses_expireAll (r := { r with deadlines := (r.deadlines.service now).1 })
    (r.deadlines.service now).2

end Retry
end TupleClient
