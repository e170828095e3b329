import TupleClient.Proofs.Pipeline.Isolation

/-!
All that an event can do to a pipeline, in the smallest parts. What holds along the parts holds
along the steps that are made of them.
-/
namespace TupleClient.Pipeline

variable {κ : Type} {p q : Pipeline κ} {r : Report κ} {x : Event κ}

def Event.Brings : Event κ → ClientError → Prop
  | .signal (.broken _ given), e => e = given
  | .signal (.closed given), e => e = given
  | _, _ => False

/-- A connection is told to have broken, whether there is a socket or not. -/
def Event.IsBreak : Event κ → Prop
  | .signal (.broken _ _) => True
  | _ => False

/-- One part of what an event does, and what is told of it. The hard cases are those that end
operations: a reply or a failure ends one with any outcome but that its time is over, which only the
clock and the deadline of the operation say. -/
inductive Part (x : Event κ) : Pipeline κ → Report κ → Pipeline κ → Prop where
  | supervised {p : Pipeline κ} (hx : x = .signal .supervised) (h : p.state = .uninitialized) :
      Part x p (.entered .reconnecting)
        { p with cell := p.cell.enter .reconnecting p.cell.terminal }
  | sought {p : Pipeline κ} (hx : x = .signal .seeking) (h : p.state = .reconnecting) :
      Part x p (.entered .connecting) { p with cell := p.cell.enter .connecting p.cell.terminal }
  | begun {p : Pipeline κ} (hx : x = .signal .begun) (h : p.state = .connecting) :
      Part x p .silent { p with cell := { p.cell with generation := p.cell.generation + 1 } }
  | attached {p : Pipeline κ} {generation : Nat} {address : String} {rest : Bytes}
      {mishap : Option Mishap} (hx : x = .signal (.attached generation address rest mishap))
      (h : p.state = .connecting) :
      Part x p .silent
        { p with outbox := p.outbox.opened, socket := some ⟨generation, address, rest, false⟩ }
  | detached {p : Pipeline κ} {generation : Nat} {address : String} {rest : Bytes}
      {mishap : Option Mishap} (hx : x = .signal (.attached generation address rest mishap))
      (h : p.state = .connecting) :
      Part x p .silent { p with outbox := p.outbox.closed, socket := none }
  | started {p : Pipeline κ} {generation : Nat} {loop : Lifecycle.Loop} {s : Lifecycle.State}
      (hx : x = .signal (.started generation loop)) (h : p.state.afterStart loop = some s) :
      Part x p (.entered s)
        { p with cell := p.cell.enter s (if s.isAlive then none else p.cell.terminal) }
  | failed {p : Pipeline κ} {e : ClientError} (hsocket : p.socket.isSome ∨ x.IsBreak)
      (he : e ≠ .timeout .operation ∨ x.Brings e) (h : p.state ≠ .closed) :
      Part x p
        ((Report.entered .reconnecting).andThen
          (teardown { p with cell := p.cell.enter .reconnecting (some e) } e).2)
        (teardown { p with cell := p.cell.enter .reconnecting (some e) } e).1
  | closed {p : Pipeline κ} {e : ClientError} (hx : x = .signal (.closed e))
      (h : p.state ≠ .closed) :
      Part x p
        ((Report.entered .closed).andThen
          (teardown { p with cell := p.cell.enter .closed (some e) } e).2)
        { (teardown { p with cell := p.cell.enter .closed (some e) } e).1 with
          deadlines :=
            (teardown { p with cell := p.cell.enter .closed (some e) } e).1.deadlines.stop }
  | refused {p : Pipeline κ} {now : Nat} {fault : Option String} {s : Submission κ}
      {e : ClientError} (hx : x = .submit now fault s)
      (he : p.cell.terminal = some e ∨ frameOf s.message p.nextSync = .error e) :
      Part x p (.ended s.tag (.error e)) { p with nextSync := p.nextSync + 1 }
  | registered {p : Pipeline κ} {now : Nat} {fault : Option String} {s : Submission κ}
      (hx : x = .submit now fault s) (h : p.cell.terminal = none) :
      Part x p .silent
        (register { p with nextSync := p.nextSync + 1 } now p.nextSync s)
  | ended {p : Pipeline κ} {id : Nat} {op : Operation κ} {outcome : Outcome}
      (h : p.operation? id = some op) (ho : outcome ≠ .error (.timeout .operation)) :
      Part x p (.ended op.tag outcome) (p.withdraw id op)
  | expired {p : Pipeline κ} {id : Nat} {op : Operation κ} (hx : x = .signal (.expired id))
      (h : p.operation? id = some op) :
      Part x p (.ended op.tag (.error (.timeout .operation))) (p.withdraw id op)
  | ticked {p : Pipeline κ} {now : Nat} (hx : x = .signal (.clock now)) :
      Part x p (p.tick now).2 (p.tick now).1
  | wrote {p : Pipeline κ} {bytes : Bytes} (h : p.socket.isSome) : Part x p (.writing bytes) p
  | changed {p q : Pipeline κ} (hcell : q.cell = p.cell) (hpending : q.pending = p.pending)
      (hnext : q.nextSync = p.nextSync) (hdeadlines : q.deadlines = p.deadlines)
      (hsocket : q.socket.isSome = p.socket.isSome) : Part x p .silent q

inductive Parts (x : Event κ) : Pipeline κ → Report κ → Pipeline κ → Prop where
  | none (p : Pipeline κ) : Parts x p .silent p
  | more {p q last : Pipeline κ} {r s : Report κ} (first : Part x p r q)
      (rest : Parts x q s last) : Parts x p (r.andThen s) last

theorem Part.parts (h : Part x p r q) : Parts x p r q := by
  simpa [Report.andThen_silent] using Parts.more h (.none q)

theorem Parts.andThen {last : Pipeline κ} {s : Report κ} (h : Parts x p r q)
    (g : Parts x q s last) : Parts x p (r.andThen s) last := by
  induction h with
  | none p => simpa [Report.silent_andThen] using g
  | more first _ ih =>
    rw [Report.andThen_assoc]
    exact .more first (ih g)

theorem parts_changed (hcell : q.cell = p.cell) (hpending : q.pending = p.pending)
    (hnext : q.nextSync = p.nextSync) (hdeadlines : q.deadlines = p.deadlines)
    (hsocket : q.socket.isSome = p.socket.isSome) : Parts x p .silent q :=
  (Part.changed hcell hpending hnext hdeadlines hsocket).parts

theorem parts_complete (p : Pipeline κ) (id : Nat) {outcome : Outcome}
    (ho : outcome ≠ .error (.timeout .operation)) :
    Parts x p (p.complete id outcome).2 (p.complete id outcome).1 := by
  unfold complete
  cases hop : p.operation? id with
  | none => exact .none p
  | some op => exact (Part.ended hop ho).parts

theorem parts_expire (p : Pipeline κ) (id : Nat) :
    Parts (.signal (.expired id)) p (p.expire id).2 (p.expire id).1 := by
  unfold expire complete
  cases hop : p.operation? id with
  | none => exact .none p
  | some op => exact (Part.expired rfl hop).parts

theorem enter_of_fail {cell : Lifecycle.Cell} {generation : Nat} {e : ClientError}
    (h : p.cell.fail generation e = (cell, true)) :
    p.state ≠ .closed ∧ cell = p.cell.enter .reconnecting (some e) := by
  have hcell := (Lifecycle.Cell.fail_eq_enter (congrArg Prod.snd h)).2
  refine ⟨fun hclosed => ?_, by rwa [h] at hcell⟩
  have hignored := (Lifecycle.Cell.ignores_of_state (.inr hclosed) generation).1 e
  simp [hignored] at h

theorem parts_fail (p : Pipeline κ) (generation : Nat) {e : ClientError}
    (hsocket : p.socket.isSome ∨ x.IsBreak) (he : e ≠ .timeout .operation ∨ x.Brings e) :
    Parts x p (p.fail generation e).2.1 (p.fail generation e).1 := by
  unfold fail
  split
  · rename_i cell hfail
    obtain ⟨hopen, rfl⟩ := enter_of_fail hfail
    exact (Part.failed hsocket he hopen).parts
  · exact .none p

theorem parts_close (p : Pipeline κ) (reason : ClientError) :
    Parts (.signal (.closed reason)) p (p.close reason).2.1 (p.close reason).1 := by
  unfold close Lifecycle.Cell.close
  by_cases hclosed : p.cell.state = .closed
  · simp only [hclosed, if_true]
    exact .none p
  · simp only [hclosed, if_false]
    exact (Part.closed rfl hclosed).parts

theorem parts_forceReconnect (p : Pipeline κ) :
    Parts x p p.forceReconnect.2.1 p.forceReconnect.1 := by
  unfold forceReconnect
  cases hsocket : p.socket with
  | none => exact .none p
  | some s => exact parts_fail p s.generation (.inl (by simp [hsocket])) (.inl (by simp))

theorem parts_supervise (p : Pipeline κ) :
    Parts (.signal .supervised) p p.supervise.2.1 p.supervise.1 := by
  unfold supervise transition Lifecycle.Cell.transition
  by_cases hstate : p.cell.state = .uninitialized
  · simp only [hstate, Lifecycle.State.canBecome, and_self, if_true]
    exact (Part.supervised rfl hstate).parts
  · simp only [hstate, false_and, if_false]
    exact .none p

theorem parts_seek (p : Pipeline κ) :
    Parts (.signal .seeking) p p.seek.2.1 p.seek.1 := by
  unfold seek transition Lifecycle.Cell.transition
  by_cases hstate : p.cell.state = .reconnecting
  · simp only [hstate, Lifecycle.State.canBecome, and_self, if_true]
    exact (Part.sought rfl hstate).parts
  · simp only [hstate, false_and, if_false]
    exact .none p

theorem parts_begin (p : Pipeline κ) : Parts (.signal .begun) p .silent p.begin.1 := by
  unfold Pipeline.begin Lifecycle.Cell.begin
  by_cases hstate : p.cell.state = .connecting
  · rw [if_pos hstate]
    exact (Part.begun rfl hstate).parts
  · rw [if_neg hstate]
    exact .none p

theorem parts_attached (p : Pipeline κ) (generation : Nat) (address : String) (rest : Bytes)
    (mishap : Option Mishap) :
    Parts (.signal (.attached generation address rest mishap)) p .silent
      (p.attach generation address rest mishap).1 := by
  unfold attach
  by_cases hstate : p.cell.generation = generation ∧ p.cell.state = .connecting
  · simp only [hstate, and_self, if_true]
    split
    · exact (Part.attached rfl hstate.2).parts
    · exact .none p
    · exact (Part.detached rfl hstate.2).parts
  · simp only [hstate, if_false]
    exact .none p

theorem parts_writeDirect (p : Pipeline κ) (fault : Option String) (sync : Nat) (bytes : Bytes) :
    Parts x p (p.writeDirect fault sync bytes).2 (p.writeDirect fault sync bytes).1 := by
  unfold writeDirect
  cases hsocket : p.socket with
  | none => exact parts_complete p sync (by simp)
  | some s =>
    have hsome : p.socket.isSome := by simp [hsocket]
    cases fault with
    | none => exact (Part.wrote hsome).parts
    | some reason =>
      exact (parts_fail p s.generation (.inl hsome) (.inl (by simp))).andThen
        (parts_complete _ sync (by simp))

theorem push_error_ne {o : Outbox} {bytes : Bytes} {e : ClientError}
    (h : o.push bytes = .error e) : e ≠ .timeout .operation := by
  unfold Outbox.push at h
  split at h
  · cases h
    simp
  · split at h <;> cases h
    simp

theorem parts_dispatchFrame (p : Pipeline κ) (fault : Option String) (sync : Nat)
    (bytes : Bytes) :
    Parts x p (p.dispatchFrame fault sync bytes).2 (p.dispatchFrame fault sync bytes).1 := by
  unfold dispatchFrame
  split
  · exact parts_writeDirect ..
  · split
    · exact parts_changed rfl rfl rfl rfl rfl
    · rename_i e hpush
      exact parts_complete p sync (by simpa using push_error_ne hpush)

theorem parts_submit (p : Pipeline κ) (now : Nat) (fault : Option String) (s : Submission κ) :
    Parts (.submit now fault s) p (p.submit now fault s).2.1 (p.submit now fault s).1 := by
  simp only [submit]
  split
  · rename_i e hterminal
    exact (Part.refused rfl (.inl hterminal)).parts
  · rename_i hterminal
    split
    · rename_i e hframe
      exact (Part.refused rfl (.inr hframe)).parts
    · have hregistered := (Part.registered (x := .submit now fault s) rfl hterminal).parts
      simpa [Report.silent_andThen] using hregistered.andThen (parts_dispatchFrame ..)

theorem parts_drain (p : Pipeline κ) (fault : Option String) :
    Parts x p (p.drain fault).2 (p.drain fault).1 := by
  unfold drain
  split
  · rename_i s outbox b bs hsocket _
    have hsome : p.socket.isSome := by simp [hsocket]
    have htaken : Parts x p .silent { p with outbox := outbox } :=
      parts_changed rfl rfl rfl rfl rfl
    cases fault with
    | none =>
      have hwrote :
          Part x { p with outbox := outbox } (.writing (b :: bs)) { p with outbox := outbox } :=
        .wrote hsome
      simpa [Report.silent_andThen] using htaken.andThen hwrote.parts
    | some reason =>
      have hfail := parts_fail (x := x) { p with outbox := outbox } s.generation
        (e := .connection (.io reason)) (.inl hsome) (.inl (by simp))
      simpa [Report.silent_andThen] using htaken.andThen hfail
  · exact .none p

theorem parts_dispatch (p : Pipeline κ) (m : Message) :
    Parts x p (p.dispatch m).2.1 (p.dispatch m).1 := by
  have hnoticed : Parts x p .silent (p.notice m) := parts_changed rfl rfl rfl rfl rfl
  rw [dispatch_eq]
  split
  · exact hnoticed
  · split
    · exact hnoticed
    · rename_i sync _ _ op hop
      have hended (outcome : Outcome) (ho : outcome ≠ .error (.timeout .operation)) :
          Parts x p (.ended op.tag outcome) ((p.notice m).withdraw sync op) := by
        simpa [Report.silent_andThen] using hnoticed.andThen (Part.ended hop ho).parts
      simp only
      split
      · exact hended _ (by simp)
      · exact hended _ (by simp)
      · exact hended _ (by simp)

theorem parts_readFrames (hsocket : p.socket.isSome) (generation : Nat) (ended : Bool)
    (input : Bytes) :
    Parts x p (p.readFrames generation ended input).2 (p.readFrames generation ended input).1 := by
  fun_induction readFrames p generation ended input with
  | case1 p input _ _ failed report _ hfail =>
    have h := parts_fail (x := x) p generation (e := .endOfInput) (.inl hsocket)
      (.inl (by simp [ClientError.endOfInput]))
    rwa [hfail] at h
  | case2 p input _ _ => exact parts_changed rfl rfl rfl rfl (by simp)
  | case3 p input e _ _ failed report _ hfail =>
    have h := parts_fail (x := x) p generation (e := .connection (.violation e.message))
      (.inl hsocket) (.inl (by simp))
    rwa [hfail] at h
  | case4 p input m rest _ next report hdispatch done more hmore ih =>
    have hfirst := parts_dispatch (x := x) p m
    have hkept : next.socket = p.socket := by simpa [hdispatch] using socket_dispatch p m
    rw [hdispatch] at hfirst
    rw [hmore] at ih
    exact hfirst.andThen (ih (by simpa [hkept] using hsocket))
  | case5 p input m rest _ next report e hdispatch failed last _ hfail =>
    have hfirst := parts_dispatch (x := x) p m
    have hkept : next.socket = p.socket := by simpa [hdispatch] using socket_dispatch p m
    rw [hdispatch] at hfirst
    have hlast := parts_fail (x := x) next generation (e := .connection e)
      (.inl (by simpa [hkept] using hsocket)) (.inl (by simp))
    rw [hfail] at hlast
    exact hfirst.andThen hlast

theorem parts_readOn (p : Pipeline κ) : Parts x p p.readOn.2 p.readOn.1 := by
  unfold readOn
  cases hsocket : p.socket with
  | none => exact .none p
  | some s =>
    by_cases hreading : p.isReading
    · simp only [hreading, if_true]
      exact parts_readFrames (by simp [hsocket]) ..
    · simp only [hreading]
      exact .none p

theorem parts_readOn_of_socket (p : Pipeline κ) (f : Socket → Socket) :
    Parts x p (readOn { p with socket := p.socket.map f }).2
      (readOn { p with socket := p.socket.map f }).1 := by
  have hchanged : Parts x p .silent { p with socket := p.socket.map f } :=
    parts_changed rfl rfl rfl rfl (by simp)
  simpa [Report.silent_andThen] using hchanged.andThen (parts_readOn _)

theorem parts_started (p : Pipeline κ) (generation : Nat) (loop : Lifecycle.Loop) :
    Parts (.signal (.started generation loop)) p (p.started generation loop).2.1
      (p.started generation loop).1 := by
  unfold started
  split
  · rename_i cell hstarted
    obtain ⟨s, hafter, rfl⟩ := Lifecycle.Cell.loopStarted_eq_enter hstarted
    exact .more (.started rfl hafter) (parts_readOn _)
  · exact .none p

theorem parts_step (p : Pipeline κ) (x : Event κ) : Parts x p (p.step x).2 (p.step x).1 := by
  cases x with
  | submit now fault s => exact parts_submit ..
  | signal s =>
    cases s with
    | supervised => exact parts_supervise p
    | seeking => exact parts_seek p
    | begun => exact parts_begin p
    | attached generation address rest mishap => exact parts_attached ..
    | started generation loop => exact parts_started ..
    | writable fault => exact parts_drain ..
    | received bytes => exact parts_readOn_of_socket p (·.append bytes)
    | hungUp => exact parts_readOn_of_socket p (·.atEnd)
    | clock now => exact (Part.ticked rfl).parts
    | expired id => exact parts_expire ..
    | broken generation e => exact parts_fail p generation (.inr trivial) (.inr rfl)
    | reconnect => exact parts_forceReconnect p
    | closed reason => exact parts_close ..

structure OnlyEnds (p : Pipeline κ) (r : Report κ) (q : Pipeline κ) : Prop where
  cell : q.cell = p.cell
  socket : q.socket = p.socket
  nextSync : q.nextSync = p.nextSync
  states : r.states = []
  written : r.written = []
  hungUp : r.hungUp = false

theorem OnlyEnds.andThen {last : Pipeline κ} {s : Report κ} (h : OnlyEnds p r q)
    (g : OnlyEnds q s last) : OnlyEnds p (r.andThen s) last where
  cell := g.cell.trans h.cell
  socket := g.socket.trans h.socket
  nextSync := g.nextSync.trans h.nextSync
  states := by simp [Report.states_andThen, h.states, g.states]
  written := by simp [Report.andThen, h.written, g.written]
  hungUp := by simp [Report.andThen, h.hungUp, g.hungUp]

theorem onlyEnds_complete (p : Pipeline κ) (id : Nat) (outcome : Outcome) :
    OnlyEnds p (p.complete id outcome).2 (p.complete id outcome).1 := by
  unfold complete
  cases p.operation? id <;> exact ⟨rfl, rfl, rfl, rfl, rfl, rfl⟩

theorem onlyEnds_expireAll (p : Pipeline κ) (ids : List Nat) :
    OnlyEnds p (p.expireAll ids).2 (p.expireAll ids).1 := by
  induction ids generalizing p with
  | nil => exact ⟨rfl, rfl, rfl, rfl, rfl, rfl⟩
  | cons id ids ih => exact (onlyEnds_complete p id _).andThen (ih _)

theorem onlyEnds_tick (p : Pipeline κ) (now : Nat) :
    OnlyEnds p (p.tick now).2 (p.tick now).1 := by
  have h := onlyEnds_expireAll { p with deadlines := (p.deadlines.service now).1 }
    (p.deadlines.service now).2
  exact ⟨h.cell, h.socket, h.nextSync, h.states, h.written, h.hungUp⟩

def Shows (p : Pipeline κ) (r : Report κ) (q : Pipeline κ) : Prop :=
  q.state = r.states.getLast?.getD p.state

theorem shows_of_cell_eq (hcell : q.cell = p.cell) (hstates : r.states = []) : Shows p r q := by
  simp [Shows, state, hcell, hstates]

theorem Shows.andThen {last : Pipeline κ} {s : Report κ} (h : Shows p r q)
    (g : Shows q s last) : Shows p (r.andThen s) last := by
  unfold Shows at h g ⊢
  rw [g, h, Report.states_andThen, List.getLast?_append]
  cases s.states.getLast? <;> simp

theorem Part.shows (h : Part x p r q) : Shows p r q := by
  cases h with
  | supervised hx h => simp [Shows, Report.entered, Report.states, state, Lifecycle.Cell.enter]
  | sought hx h => simp [Shows, Report.entered, Report.states, state, Lifecycle.Cell.enter]
  | begun hx h => simp [Shows, Report.silent, Report.states, state]
  | started hx h => simp [Shows, Report.entered, Report.states, state, Lifecycle.Cell.enter]
  | failed hsocket he h =>
    simp only [Shows, Report.states_andThen, states_teardown]
    rfl
  | closed hx h =>
    simp only [Shows, Report.states_andThen, states_teardown]
    rfl
  | @ticked now hx =>
    have htick := onlyEnds_tick p now
    exact shows_of_cell_eq htick.cell htick.states
  | changed hcell => exact shows_of_cell_eq hcell rfl
  | _ => exact shows_of_cell_eq rfl rfl

theorem Parts.shows (h : Parts x p r q) : Shows p r q := by
  induction h with
  | none p => exact shows_of_cell_eq rfl rfl
  | more first _ ih => exact first.shows.andThen ih

end TupleClient.Pipeline
