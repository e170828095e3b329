import TupleClient.Proofs.Pipeline.Isolation
import TupleClient.Proofs.Retry.Journal

/-!
Which socket a pipeline has. It is that of the present connection, which is alive, but for the time
in which the socket is taken into use; and it stays until it is let go.
-/
namespace TupleClient

def Signal.IsLater : Signal → Prop
  | .begun => False
  | .attached _ _ _ _ => False
  | _ => True

namespace Pipeline

variable {κ : Type} {p q last : Pipeline κ}

/-- The number and the address of the connection that there is a socket of. -/
def line? (p : Pipeline κ) : Option (Nat × String) :=
  p.socket.map fun s => (s.generation, s.address)

/-- From `p` to `q` the connection is what it was, or its socket is let go. -/
def Stays (p q : Pipeline κ) : Prop :=
  q.socket = none ∨
    q.line? = p.line? ∧ q.cell.generation = p.cell.generation ∧
      (p.state = .alive → q.state = .alive)

/-- The socket is that of the present connection, which is alive. -/
def InUse (p : Pipeline κ) : Prop :=
  ∀ s, p.socket = some s → s.generation = p.cell.generation ∧ p.state = .alive

theorem line?_eq_none : p.line? = none ↔ p.socket = none := by
  simp [line?]

theorem Stays.of_eq (hsocket : q.socket = p.socket) (hcell : q.cell = p.cell) : Stays p q :=
  .inr ⟨by rw [line?, hsocket]; rfl, by rw [hcell], by simp [state, hcell]⟩

theorem Stays.refl (p : Pipeline κ) : Stays p p := .of_eq rfl rfl

theorem Stays.trans (h : Stays p q) (g : Stays q last) : Stays p last := by
  rcases g with hnone | ⟨hline, hgeneration, hstate⟩
  · exact .inl hnone
  · rcases h with hnone | ⟨hline', hgeneration', hstate'⟩
    · exact .inl (line?_eq_none.1 (hline.trans (line?_eq_none.2 hnone)))
    · exact .inr ⟨hline.trans hline', hgeneration.trans hgeneration', hstate ∘ hstate'⟩

theorem Stays.of_socket (f : Socket → Socket)
    (hf : ∀ s, (f s).generation = s.generation ∧ (f s).address = s.address) :
    Stays p { p with socket := p.socket.map f } := by
  refine .inr ⟨?_, rfl, id⟩
  cases hsocket : p.socket with
  | none => simp [line?, hsocket]
  | some s => simp [line?, hsocket, hf s]

theorem Stays.inUse (h : Stays p q) (hp : p.InUse) : q.InUse := by
  intro s hs
  rcases h with hnone | ⟨hline, hgeneration, hstate⟩
  · simp [hnone] at hs
  · have hnumber : p.line? = some (s.generation, s.address) := by
      rw [← hline, line?, hs]
      rfl
    obtain ⟨s', hs', heq⟩ := Option.map_eq_some_iff.1 hnumber
    obtain ⟨hnumber', halive⟩ := hp s' hs'
    exact ⟨by rw [hgeneration, ← hnumber', ← (Prod.mk.inj heq).1], hstate halive⟩

theorem stays_complete (p : Pipeline κ) (id : Nat) (outcome : Outcome) :
    Stays p (p.complete id outcome).1 := by
  unfold complete
  split
  · exact .of_eq rfl rfl
  · exact .refl p

theorem stays_fail (p : Pipeline κ) (generation : Nat) (e : ClientError) :
    Stays p (p.fail generation e).1 := by
  unfold fail
  split
  · exact .inl rfl
  · exact .refl p

theorem stays_close (p : Pipeline κ) (reason : ClientError) : Stays p (p.close reason).1 := by
  unfold close
  split
  · exact .inl rfl
  · exact .refl p

theorem stays_transition (p : Pipeline κ) {source : Lifecycle.State} (h : source ≠ .alive)
    (target : Lifecycle.State) : Stays p (p.transition source target).1 := by
  unfold transition Lifecycle.Cell.transition
  split
  · rename_i cell htransition
    split at htransition
    · rename_i hedge
      obtain ⟨rfl, -⟩ := Prod.mk.inj htransition
      exact .inr ⟨rfl, rfl, fun halive => absurd (hedge.1.symm.trans halive) h⟩
    · cases htransition
  · exact .refl p

theorem stays_writeDirect (p : Pipeline κ) (fault : Option String) (sync : Nat) (bytes : Bytes) :
    Stays p (p.writeDirect fault sync bytes).1 := by
  unfold writeDirect
  split
  · exact stays_complete ..
  · exact .refl p
  · exact (stays_fail ..).trans (stays_complete ..)

theorem stays_dispatchFrame (p : Pipeline κ) (fault : Option String) (sync : Nat) (bytes : Bytes) :
    Stays p (p.dispatchFrame fault sync bytes).1 := by
  unfold dispatchFrame
  split
  · exact stays_writeDirect ..
  · split
    · exact .of_eq rfl rfl
    · exact stays_complete ..

theorem stays_submit (p : Pipeline κ) (now : Nat) (fault : Option String) (s : Submission κ) :
    Stays p (p.submit now fault s).1 := by
  simp only [submit]
  split
  · exact .of_eq rfl rfl
  · split
    · exact .of_eq rfl rfl
    · have hregistered :
          Stays p (register { p with nextSync := p.nextSync + 1 } now p.nextSync s) :=
        .of_eq rfl rfl
      exact hregistered.trans (stays_dispatchFrame ..)

theorem stays_drain (p : Pipeline κ) (fault : Option String) : Stays p (p.drain fault).1 := by
  unfold drain
  split
  · rename_i outbox b bs _ _
    have htaken : Stays p { p with outbox := outbox } := .of_eq rfl rfl
    simp only
    split
    · exact htaken
    · exact htaken.trans (stays_fail ..)
  · exact .refl p

theorem stays_dispatch (p : Pipeline κ) (m : Message) : Stays p (p.dispatch m).1 := by
  rw [dispatch_eq]
  split
  · exact .of_eq rfl rfl
  · split
    · exact .of_eq rfl rfl
    · simp only
      split <;> exact .of_eq rfl rfl

theorem stays_readFrames (p : Pipeline κ) (generation : Nat) (ended : Bool) (input : Bytes) :
    Stays p (p.readFrames generation ended input).1 := by
  fun_induction readFrames p generation ended input with
  | case1 p input _ _ failed report _ hfail =>
    have h := stays_fail p generation ClientError.endOfInput
    rwa [hfail] at h
  | case2 p input _ _ => exact .of_socket _ fun _ => ⟨rfl, rfl⟩
  | case3 p input e _ _ failed report _ hfail =>
    have h := stays_fail p generation (.connection (.violation e.message))
    rwa [hfail] at h
  | case4 p input m rest _ next report hdispatch done more hmore ih =>
    have h := stays_dispatch p m
    rw [hdispatch] at h
    rw [hmore] at ih
    exact h.trans ih
  | case5 p input m rest _ next report e hdispatch failed last _ hfail =>
    have h := stays_dispatch p m
    rw [hdispatch] at h
    have hlast := stays_fail next generation (.connection e)
    rw [hfail] at hlast
    exact h.trans hlast

theorem stays_readOn (p : Pipeline κ) : Stays p p.readOn.1 := by
  unfold readOn
  split
  · split
    · exact stays_readFrames ..
    · exact .refl p
  · exact .refl p

theorem stays_started (p : Pipeline κ) (generation : Nat) (loop : Lifecycle.Loop) :
    Stays p (p.started generation loop).1 := by
  unfold started
  split
  · rename_i cell hstarted
    obtain ⟨s, hafter, rfl⟩ := Lifecycle.Cell.loopStarted_eq_enter hstarted
    have hentered : Stays p { p with
        cell := p.cell.enter s (if s.isAlive then none else p.cell.terminal) } :=
      .inr ⟨rfl, rfl, fun halive => absurd halive (Lifecycle.afterStart_up hafter).1⟩
    exact hentered.trans (stays_readOn _)
  · exact .refl p

theorem stays_expireAll (p : Pipeline κ) (ids : List Nat) : Stays p (p.expireAll ids).1 := by
  induction ids generalizing p with
  | nil => exact .refl p
  | cons id ids ih => exact (stays_complete ..).trans (ih _)

theorem stays_signal (p : Pipeline κ) {s : Signal} (hs : s.IsLater) : Stays p (p.signal s).1 := by
  cases s with
  | supervised => exact stays_transition p Lifecycle.State.noConfusion .reconnecting
  | seeking => exact stays_transition p Lifecycle.State.noConfusion .connecting
  | begun => exact hs.elim
  | attached generation address rest mishap => exact hs.elim
  | started generation loop => exact stays_started ..
  | writable fault => exact stays_drain ..
  | received bytes =>
    exact (Stays.of_socket (·.append bytes) fun _ => ⟨rfl, rfl⟩).trans (stays_readOn _)
  | hungUp => exact (Stays.of_socket Socket.atEnd fun _ => ⟨rfl, rfl⟩).trans (stays_readOn _)
  | clock now =>
    have hserved : Stays p { p with deadlines := (p.deadlines.service now).1 } := .of_eq rfl rfl
    exact hserved.trans (stays_expireAll ..)
  | expired id => exact stays_complete ..
  | broken generation e => exact stays_fail ..
  | reconnect =>
    change Stays p p.forceReconnect.1
    unfold forceReconnect
    split
    · exact stays_fail ..
    · exact .refl p
  | closed reason => exact stays_close ..

theorem begin_eq_some {generation : Nat} (h : p.begin = (q, some generation)) :
    p.state = .connecting ∧ q = { p with cell := { p.cell with generation := generation } } := by
  unfold Pipeline.begin Lifecycle.Cell.begin at h
  by_cases hconnecting : p.cell.state = .connecting
  · rw [if_pos hconnecting] at h
    obtain ⟨rfl, hgeneration⟩ := Prod.mk.inj h
    obtain rfl := Option.some.inj hgeneration
    exact ⟨hconnecting, rfl⟩
  · simp [hconnecting] at h

theorem attach_of_begin {generation : Nat} (h : p.begin = (q, some generation)) (address : String)
    (rest : Bytes) :
    q.attach generation address rest none = ({ q with
      outbox := q.outbox.opened, socket := some ⟨generation, address, rest, false⟩ }, .ok ()) := by
  obtain ⟨hconnecting, rfl⟩ := begin_eq_some h
  have hstate : p.cell.state = .connecting := hconnecting
  unfold attach
  rw [if_pos ⟨rfl, hstate⟩]

/-- After a mishap it is as if there had been none. -/
theorem detached_of_begin {generation : Nat} (h : p.begin = (q, some generation))
    (hsocket : p.socket = none) (address : String) (rest : Bytes) (mishap : Mishap) :
    (∃ e, (q.attach generation address rest (some mishap)).2 = .error e) ∧
      (q.attach generation address rest (some mishap)).1.socket = none ∧
      (q.attach generation address rest (some mishap)).1.state = p.state := by
  obtain ⟨hconnecting, rfl⟩ := begin_eq_some h
  have hstate : p.cell.state = .connecting := hconnecting
  unfold attach
  rw [if_pos ⟨rfl, hstate⟩]
  cases mishap with
  | split reason => exact ⟨⟨_, rfl⟩, hsocket, rfl⟩
  | loop loop reason => exact ⟨⟨_, rfl⟩, rfl, rfl⟩

theorem signal_started_writer {generation : Nat} (hconnecting : p.state = .connecting)
    (hgeneration : p.cell.generation = generation) :
    p.signal (.started generation .writer) =
      ({ p with cell := p.cell.enter .writing p.cell.terminal }, .entered .writing) := by
  have hcell : p.cell.loopStarted generation .writer =
      (p.cell.enter .writing p.cell.terminal, true) := by
    have hstate : p.cell.state = .connecting := hconnecting
    simp [Lifecycle.Cell.loopStarted, hgeneration, hstate, Lifecycle.State.afterStart,
      Lifecycle.State.isAlive]
  -- There is nothing to read on with, as the reader does not run yet.
  have hidle : readOn { p with cell := p.cell.enter .writing p.cell.terminal } =
      ({ p with cell := p.cell.enter .writing p.cell.terminal }, .silent) := by
    unfold readOn
    split
    · exact if_neg (by simp [isReading, Lifecycle.Cell.enter])
    · rfl
  simp only [signal, started, hcell, hidle, Report.andThen_silent]
  rfl

/-- With the reader the connection is alive, and what has come in is read. -/
theorem signal_started_reader {generation : Nat} (hwriting : p.state = .writing)
    (hgeneration : p.cell.generation = generation) :
    p.signal (.started generation .reader) =
      ((readOn { p with cell := p.cell.enter .alive none }).1,
        (Report.entered .alive).andThen
          (readOn { p with cell := p.cell.enter .alive none }).2) := by
  have hcell : p.cell.loopStarted generation .reader = (p.cell.enter .alive none, true) := by
    have hstate : p.cell.state = .writing := hwriting
    simp [Lifecycle.Cell.loopStarted, hgeneration, hstate, Lifecycle.State.afterStart,
      Lifecycle.State.isAlive]
  simp only [signal, started, hcell]
  rfl

theorem inUse_started {s : Socket} (hsocket : p.socket = some s)
    (hconnecting : p.state = .connecting)
    (hgeneration : p.cell.generation = s.generation) :
    ((p.signal (.started s.generation .writer)).1.signal
      (.started s.generation .reader)).1.InUse := by
  rw [signal_started_writer hconnecting hgeneration, signal_started_reader
    (p := { p with cell := p.cell.enter .writing p.cell.terminal }) rfl hgeneration]
  refine (stays_readOn _).inUse fun s' hs' => ?_
  obtain rfl : s = s' := Option.some.inj (hsocket.symm.trans hs')
  exact ⟨hgeneration.symm, rfl⟩

end Pipeline

namespace Retry

open Pipeline

variable {κ : Type} {p q : Pipeline (Owner κ)} {notes : List (Note κ)}

def Note.IsLater : Note κ → Prop
  | .signalled s => s.IsLater
  | _ => True

def Later (notes : List (Note κ)) : Prop := ∀ n ∈ notes, n.IsLater

theorem stays_records (h : Records p notes q) (hnotes : Later notes) : Stays p q := by
  induction h with
  | nil p => exact .refl p
  | submitted _ ih =>
    exact (stays_submit ..).trans (ih fun n hn => hnotes n (by simp [hn]))
  | signalled _ ih =>
    exact (stays_signal _ (hnotes _ List.mem_cons_self)).trans
      (ih fun n hn => hnotes n (by simp [hn]))
  | refreshed _ ih => exact ih fun n hn => hnotes n (List.mem_cons_of_mem _ hn)
  | installed _ ih => exact ih fun n hn => hnotes n (List.mem_cons_of_mem _ hn)

theorem later_endings (report : Report (Owner κ)) : Later (endings report) := by
  intro n hn
  obtain ⟨x, -, rfl⟩ := List.mem_map.1 hn
  trivial

theorem later_handed (r : Retry κ) (now : Nat) (fault : Option String) (s : Submission (Owner κ)) :
    Later (r.handed now fault s) :=
  List.forall_mem_cons.2 ⟨trivial, later_endings _⟩

theorem later_notesOfSubmit (r : Retry κ) (now : Nat) (fault : Option String) (e : Entry κ) :
    Later (r.notesOfSubmit now fault e) := by
  unfold notesOfSubmit
  split
  · exact later_handed r now fault _
  · exact List.forall_mem_nil _

theorem later_notesOfAll (r : Retry κ) (now : Nat) (fault : Option String) (es : List (Entry κ)) :
    Later (r.notesOfAll now fault es) := by
  induction es generalizing r with
  | nil => exact List.forall_mem_nil _
  | cons e es ih => exact List.forall_mem_append.2 ⟨later_notesOfSubmit _ now fault e, ih _⟩

theorem later_notesAfter (r : Retry κ) (now : Nat) (fault : Option String)
    (result : Except ClientError Catalog.Snapshot) :
    Later (r.notesAfter now fault result) := by
  cases result with
  | ok s => exact List.forall_mem_cons.2 ⟨trivial, later_notesOfAll _ now fault _⟩
  | error e => exact List.forall_mem_nil _

theorem stays_step (r : Retry κ) (e : Event κ) (he : ∀ s, e = .signal s → s.IsLater) :
    Stays r.pipeline (r.step e).1.pipeline := by
  refine stays_records (records_step r e) ?_
  cases e with
  | execute now fault request timeout tag => exact later_notesOfSubmit _ now fault _
  | plain now fault request timeout tag => exact later_handed r now fault _
  | signal s => exact List.forall_mem_cons.2 ⟨he s rfl, later_endings _⟩
  | clock now => exact List.forall_mem_nil _
  | expired id => exact List.forall_mem_nil _
  | replay now fault refreshed =>
    simp only [Retry.notes, notesOfReplay]
    split
    · exact later_notesAfter _ now fault refreshed
    · exact later_notesOfAll _ now fault _
  | resubmit now fault => exact later_notesOfAll _ now fault _
  | refreshed now fault result => exact later_notesAfter r now fault result

end Retry
end TupleClient
