import TupleClient.Proofs.Pipeline.Closing
import TupleClient.Proofs.Pipeline.Outcomes

/-!
What is there when there is no connection: no operation waits, no bytes do, and whoever submits is
told at once why. Once everything is closed that is so for good.
-/
namespace TupleClient

theorem Outbox.take_eq_some {o rest : Outbox} {data : Bytes} (h : o.take = (rest, some data)) :
    o.isOpen = true ∧ o.data = data ∧ rest = { o with data := [] } := by
  unfold Outbox.take at h
  split at h
  · rename_i hopen
    cases h
    exact ⟨hopen, rfl, rfl⟩
  · cases h

namespace Lifecycle

theorem Cell.loopStarted_eq_enter {c d : Cell} {generation : Nat} {loop : Loop}
    (h : c.loopStarted generation loop = (d, true)) :
    ∃ s, c.state.afterStart loop = some s ∧
      d = c.enter s (if s.isAlive then none else c.terminal) := by
  unfold Cell.loopStarted at h
  split at h
  · split at h
    · rename_i s hafter
      exact ⟨s, hafter, (Prod.mk.inj h).1.symm⟩
    · cases h
  · cases h

theorem afterStart_up {s t : State} {loop : Loop} (h : s.afterStart loop = some t) :
    s ≠ .alive ∧ (t = .reading ∨ t = .writing ∨ t = .alive) := by
  cases s <;> cases loop <;> cases h <;> decide

theorem open_of_afterStart {s t : State} {loop : Loop} (h : s.afterStart loop = some t) :
    s ≠ .closed ∧ t ≠ .reconnecting ∧ t ≠ .closed := by
  cases s <;> cases loop <;> cases h <;> decide

end Lifecycle

namespace Pipeline

variable {κ : Type} {p q : Pipeline κ}

/-- No socket is held, and the outbox is shut and empty. -/
structure Detached (p : Pipeline κ) : Prop where
  socket : p.socket = none
  isOpen : p.outbox.isOpen = false
  data : p.outbox.data = []

/-- The error meets every submission at once. Nothing comes of it but that a number is used up: no
operation and no deadline is put down, and no byte is written or left to be. -/
structure Refuses (p : Pipeline κ) (e : ClientError) : Prop where
  terminal : p.cell.terminal = some e
  submit : ∀ now fault s, p.submit now fault s =
    ({ p with nextSync := p.nextSync + 1 }, .ended s.tag (.error e), p.nextSync)

/-- Operations and their bytes wait only while the connection is alive, which is when no error meets
them. In the states before a connection is sought and after it is lost none is held. -/
structure Isolated (p : Pipeline κ) : Prop where
  usable : p.cell.terminal = none ↔ p.state = .alive
  pending : p.state ≠ .alive → p.pending = []
  unsent : p.state ≠ .alive → p.outbox.data = []
  detached : p.state = .uninitialized ∨ p.state = .reconnecting ∨ p.state = .closed → p.Detached

theorem isolated_create (settings : PipelineSettings) :
    (create settings : Pipeline κ).Isolated where
  usable := ⟨nofun, nofun⟩
  pending _ := rfl
  unsent _ := rfl
  detached _ := ⟨rfl, rfl, rfl⟩

theorem Isolated.of_alive (hterminal : q.cell.terminal = none) (hstate : q.state = .alive) :
    q.Isolated where
  usable := ⟨fun _ => hstate, fun _ => hterminal⟩
  pending h := absurd hstate h
  unsent h := absurd hstate h
  detached := by
    rw [hstate]
    exact nofun

theorem Isolated.of_eq (hp : p.Isolated) (hstate : q.state = p.state)
    (hterminal : q.cell.terminal = p.cell.terminal) (houtbox : q.outbox = p.outbox)
    (hpending : p.pending = [] → q.pending = []) (hsocket : p.socket = none → q.socket = none) :
    q.Isolated where
  usable := by rw [hterminal, hstate, hp.usable]
  pending h := hpending (hp.pending (hstate ▸ h))
  unsent h := by
    rw [houtbox]
    exact hp.unsent (hstate ▸ h)
  detached h := by
    have hdown := hp.detached (hstate ▸ h)
    exact ⟨hsocket hdown.socket, houtbox ▸ hdown.isOpen, houtbox ▸ hdown.data⟩

theorem isolated_teardown {reason : ClientError} (hterminal : p.cell.terminal = some reason)
    (hstate : p.state ≠ .alive) (e : ClientError) : (p.teardown e).1.Isolated where
  usable := by
    have hsome : p.cell.terminal ≠ none := by simp [hterminal]
    exact ⟨fun h => absurd h hsome, fun h => absurd h hstate⟩
  pending _ := rfl
  unsent _ := rfl
  detached _ := ⟨rfl, rfl, rfl⟩

theorem isolated_fail (hp : p.Isolated) (generation : Nat) (e : ClientError) :
    (p.fail generation e).1.Isolated := by
  unfold fail
  split
  · rename_i cell hfail
    have hcell := (Lifecycle.Cell.fail_eq_enter (congrArg Prod.snd hfail)).2
    rw [hfail] at hcell
    subst hcell
    exact isolated_teardown rfl Lifecycle.State.noConfusion e
  · exact hp

theorem cell_close {reason : ClientError} (h : (p.close reason).2.2 = true) :
    (p.close reason).1.cell = p.cell.enter .closed (some reason) := by
  unfold close Lifecycle.Cell.close at h ⊢
  by_cases hclosed : p.cell.state = .closed
  · simp [hclosed] at h
  · simp [hclosed, teardown]

theorem isolated_close (hp : p.Isolated) (reason : ClientError) :
    (p.close reason).1.Isolated := by
  unfold close Lifecycle.Cell.close
  split
  · rename_i cell hclose
    split at hclose
    · cases hclose
    · obtain ⟨rfl, -⟩ := Prod.mk.inj hclose
      have htorn := isolated_teardown (p := { p with cell := p.cell.enter .closed (some reason) })
        rfl Lifecycle.State.noConfusion reason
      exact htorn.of_eq rfl rfl rfl (fun h => h) fun h => h
  · exact hp

theorem isolated_forceReconnect (hp : p.Isolated) : p.forceReconnect.1.Isolated := by
  unfold forceReconnect
  split
  · exact isolated_fail hp ..
  · exact hp

theorem isolated_complete (hp : p.Isolated) (id : Nat) (outcome : Outcome) :
    (p.complete id outcome).1.Isolated := by
  unfold complete
  split
  · exact hp.of_eq rfl rfl rfl (fun h => by simp [withdraw, h]) fun h => h
  · exact hp

theorem isolated_transition (hp : p.Isolated) {source target : Lifecycle.State}
    (hsource : source = .uninitialized ∨ source = .reconnecting) (htarget : target ≠ .alive) :
    (p.transition source target).1.Isolated := by
  unfold transition Lifecycle.Cell.transition
  split
  · rename_i cell htransition
    split at htransition
    · rename_i hedge
      obtain ⟨rfl, -⟩ := Prod.mk.inj htransition
      have hstate : p.state = source := hedge.1
      have hdead : p.state ≠ .alive := by
        rw [hstate]
        rintro rfl
        rcases hsource with h | h <;> cases h
      have hdown := hp.detached (by
        rw [hstate]
        exact hsource.imp_right .inl)
      have hterminal : p.cell.terminal ≠ none := fun h => hdead (hp.usable.1 h)
      exact
        { usable := ⟨fun h => absurd h hterminal, fun h => absurd h htarget⟩
          pending := fun _ => hp.pending hdead
          unsent := fun _ => hdown.data
          detached := fun _ => ⟨hdown.socket, hdown.isOpen, hdown.data⟩ }
    · cases htransition
  · exact hp

theorem isolated_begin (hp : p.Isolated) : p.begin.1.Isolated := by
  have hcell : p.cell.begin.1.state = p.cell.state ∧
      p.cell.begin.1.terminal = p.cell.terminal := by
    unfold Lifecycle.Cell.begin
    split <;> exact ⟨rfl, rfl⟩
  exact hp.of_eq hcell.1 hcell.2 rfl id id

theorem isolated_attach (hp : p.Isolated) (generation : Nat) (address : String) (rest : Bytes)
    (mishap : Option Mishap) : (p.attach generation address rest mishap).1.Isolated := by
  unfold attach
  split
  · rename_i hconnecting
    have hstate : p.state = .connecting := hconnecting.2
    split
    · exact
        { usable := hp.usable
          pending := hp.pending
          unsent := fun _ => rfl
          detached := fun hdown => by
            have hother : p.state = .uninitialized ∨ p.state = .reconnecting ∨ p.state = .closed :=
              hdown
            simp [hstate] at hother }
    · exact hp
    · exact
        { usable := hp.usable
          pending := hp.pending
          unsent := fun _ => rfl
          detached := fun _ => ⟨rfl, rfl, rfl⟩ }
  · exact hp

theorem isolated_writeDirect (hp : p.Isolated) (fault : Option String) (sync : Nat)
    (bytes : Bytes) : (p.writeDirect fault sync bytes).1.Isolated := by
  unfold writeDirect
  split
  · exact isolated_complete hp ..
  · exact hp
  · exact isolated_complete (isolated_fail hp ..) ..

theorem isolated_dispatchFrame (hp : p.Isolated) (halive : p.state = .alive)
    (fault : Option String) (sync : Nat) (bytes : Bytes) :
    (p.dispatchFrame fault sync bytes).1.Isolated := by
  unfold dispatchFrame
  split
  · exact isolated_writeDirect hp ..
  · split
    · exact .of_alive (hp.usable.2 halive) halive
    · exact isolated_complete hp ..

theorem isolated_submit (hp : p.Isolated) (now : Nat) (fault : Option String) (s : Submission κ) :
    (p.submit now fault s).1.Isolated := by
  have hnumbered : ({ p with nextSync := p.nextSync + 1 } : Pipeline κ).Isolated :=
    hp.of_eq rfl rfl rfl id id
  simp only [submit]
  split
  · exact hnumbered
  · rename_i hterminal
    have halive : p.state = .alive := hp.usable.1 hterminal
    split
    · exact hnumbered
    · have hregistered :
          (register { p with nextSync := p.nextSync + 1 } now p.nextSync s).Isolated :=
        .of_alive hterminal halive
      exact isolated_dispatchFrame hregistered halive ..

theorem isolated_drain (hp : p.Isolated) (fault : Option String) :
    (p.drain fault).1.Isolated := by
  unfold drain
  split
  · rename_i socket outbox b bs _ htake
    obtain ⟨-, hdata, -⟩ := Outbox.take_eq_some htake
    -- Bytes wait, so the connection is alive.
    have halive : p.state = .alive := by
      by_contra hdead
      rw [hp.unsent hdead] at hdata
      cases hdata
    have htaken : ({ p with outbox := outbox } : Pipeline κ).Isolated :=
      .of_alive (hp.usable.2 halive) halive
    simp only
    split
    · exact htaken
    · exact isolated_fail htaken ..
  · exact hp

theorem isolated_dispatch (hp : p.Isolated) (m : Message) : (p.dispatch m).1.Isolated := by
  have hnoticed : (p.notice m).Isolated := hp.of_eq rfl rfl rfl id id
  rw [dispatch_eq]
  split
  · exact hnoticed
  · split
    · exact hnoticed
    · rename_i sync _ _ op _
      have hwithdrawn : ((p.notice m).withdraw sync op).Isolated :=
        hnoticed.of_eq rfl rfl rfl (fun h => by simp [withdraw, h]) id
      simp only
      split <;> exact hwithdrawn

theorem isolated_readFrames (hp : p.Isolated) (generation : Nat) (ended : Bool) (input : Bytes) :
    (p.readFrames generation ended input).1.Isolated := by
  fun_induction readFrames p generation ended input with
  | case1 p input _ _ failed report _ hfail =>
    have h := isolated_fail hp generation ClientError.endOfInput
    rwa [hfail] at h
  | case2 p input _ _ => exact hp.of_eq rfl rfl rfl id fun h => by rw [h]; rfl
  | case3 p input e _ _ failed report _ hfail =>
    have h := isolated_fail hp generation (.connection (.violation e.message))
    rwa [hfail] at h
  | case4 p input m rest _ next report hdispatch done more hmore ih =>
    have h := isolated_dispatch hp m
    rw [hdispatch] at h
    rw [hmore] at ih
    exact ih h
  | case5 p input m rest _ next report e hdispatch failed last _ hfail =>
    have h := isolated_dispatch hp m
    rw [hdispatch] at h
    have hlast := isolated_fail h generation (.connection e)
    rwa [hfail] at hlast

theorem isolated_readOn (hp : p.Isolated) : p.readOn.1.Isolated := by
  unfold readOn
  split
  · split
    · exact isolated_readFrames hp ..
    · exact hp
  · exact hp

theorem isolated_readOn_of_socket (hp : p.Isolated) (f : Socket → Socket) :
    (readOn { p with socket := p.socket.map f }).1.Isolated :=
  isolated_readOn (hp.of_eq rfl rfl rfl id fun h => by rw [h]; rfl)

theorem isolated_started (hp : p.Isolated) (generation : Nat) (loop : Lifecycle.Loop) :
    (p.started generation loop).1.Isolated := by
  unfold started
  split
  · rename_i cell hstarted
    obtain ⟨s, hafter, rfl⟩ := Lifecycle.Cell.loopStarted_eq_enter hstarted
    obtain ⟨hdead, hs⟩ := Lifecycle.afterStart_up hafter
    have hterminal : p.cell.terminal ≠ none := fun h => hdead (hp.usable.1 h)
    refine isolated_readOn ?_
    by_cases halive : s = .alive
    · subst halive
      exact .of_alive rfl rfl
    · have hkept : (if s.isAlive then none else p.cell.terminal) = p.cell.terminal :=
        if_neg (by simpa [Lifecycle.State.isAlive] using halive)
      exact
        { usable := by
            change (if s.isAlive then none else p.cell.terminal) = none ↔ s = .alive
            rw [hkept]
            exact ⟨fun h => absurd h hterminal, fun h => absurd h halive⟩
          pending := fun _ => hp.pending hdead
          unsent := fun _ => hp.unsent hdead
          detached := fun hdown => by
            have hother : s = .uninitialized ∨ s = .reconnecting ∨ s = .closed := hdown
            rcases hs with rfl | rfl | rfl <;> simp at hother }
  · exact hp

theorem isolated_expireAll (hp : p.Isolated) (ids : List Nat) : (p.expireAll ids).1.Isolated := by
  induction ids generalizing p with
  | nil => exact hp
  | cons id ids ih => exact ih (isolated_complete hp ..)

theorem isolated_signal (hp : p.Isolated) (s : Signal) : (p.signal s).1.Isolated := by
  cases s with
  | supervised => exact isolated_transition hp (.inl rfl) nofun
  | seeking => exact isolated_transition hp (.inr rfl) nofun
  | begun => exact isolated_begin hp
  | attached generation address rest mishap => exact isolated_attach hp ..
  | started generation loop => exact isolated_started hp ..
  | writable fault => exact isolated_drain hp fault
  | received bytes => exact isolated_readOn_of_socket hp _
  | hungUp => exact isolated_readOn_of_socket hp _
  | clock now =>
    have hserved : ({ p with deadlines := (p.deadlines.service now).1 } : Pipeline κ).Isolated :=
      hp.of_eq rfl rfl rfl id id
    exact isolated_expireAll hserved _
  | expired id => exact isolated_complete hp ..
  | broken generation e => exact isolated_fail hp ..
  | reconnect => exact isolated_forceReconnect hp
  | closed reason => exact isolated_close hp reason

theorem isolated_step (hp : p.Isolated) (e : Event κ) : (p.step e).1.Isolated := by
  cases e with
  | submit now fault s => exact isolated_submit hp ..
  | signal s => exact isolated_signal hp s

theorem isolated_run (hp : p.Isolated) (es : List (Event κ)) : (p.run es).1.Isolated := by
  induction es generalizing p with
  | nil => exact hp
  | cons e es ih => exact ih (isolated_step hp e)

theorem refuses_of_terminal {e : ClientError} (h : p.cell.terminal = some e) : p.Refuses e where
  terminal := h
  submit now fault s := by simp only [submit, h]

theorem Isolated.refuses (hp : p.Isolated) (h : p.state ≠ .alive) : ∃ e, p.Refuses e := by
  obtain ⟨e, he⟩ := Option.ne_none_iff_exists'.1 fun hnone => h (hp.usable.1 hnone)
  exact ⟨e, refuses_of_terminal he⟩

theorem close_of_closed (h : p.state = .closed) (reason : ClientError) :
    p.close reason = (p, .silent, false) := by
  have hstate : p.cell.state = .closed := h
  rw [close, Lifecycle.Cell.close, if_pos hstate]

theorem cell_step_of_closed (h : p.state = .closed) (e : Event κ) :
    (p.step e).1.cell = p.cell := by
  have hends : Ends (fun _ => True) p (p.step e).1 (p.step e).2 := by
    cases e with
    | submit now fault s => exact ends_submit ..
    | signal s => exact ends_signal p s fun _ _ => trivial
  exact (hends.kept h).1

theorem cell_run_of_closed (h : p.state = .closed) (es : List (Event κ)) :
    (p.run es).1.cell = p.cell := by
  induction es generalizing p with
  | nil => rfl
  | cons e es ih =>
    have hcell := cell_step_of_closed h e
    have hclosed : (p.step e).1.state = .closed := by rwa [state, hcell]
    exact (ih hclosed).trans hcell

/-- In every state that can be reached without a live connection no operation waits, and a
submission is answered at once with the error that is recorded. Before a connection is sought, after
one is lost and at the end there is no socket either, and nothing in the outbox. The end is for
good, under the reason that it came for. -/
theorem isolated_without_connection (settings : PipelineSettings) (es : List (Event κ)) :
    let p := ((create settings : Pipeline κ).run es).1
    (p.state ≠ .alive → p.pending = [] ∧ ∃ e, p.Refuses e) ∧
      (p.state = .uninitialized ∨ p.state = .reconnecting ∨ p.state = .closed → p.Detached) ∧
      ∀ reason, (p.close reason).2.2 = true → ∀ more,
        let q := ((p.close reason).1.run more).1
        q.state = .closed ∧ q.pending = [] ∧ q.Refuses reason ∧ q.Detached ∧
          ∀ again, q.close again = (q, .silent, false) := by
  intro p
  have hp : p.Isolated := isolated_run (isolated_create settings) es
  refine ⟨fun h => ⟨hp.pending h, hp.refuses h⟩, hp.detached, fun reason hreason more => ?_⟩
  intro q
  have hcell := cell_close hreason
  have hclosed : (p.close reason).1.state = .closed := by
    rw [state, hcell]
    rfl
  have hq : q.Isolated := isolated_run (isolated_close hp reason) more
  have hqcell : q.cell = p.cell.enter .closed (some reason) :=
    (cell_run_of_closed hclosed more).trans hcell
  have hqclosed : q.state = .closed := by
    rw [state, hqcell]
    rfl
  have hdead : q.state ≠ .alive := by
    rw [hqclosed]
    decide
  exact ⟨hqclosed, hq.pending hdead, refuses_of_terminal (by rw [hqcell]; rfl),
    hq.detached (.inr (.inr hqclosed)), close_of_closed hqclosed⟩

/-- The connection of the trail is lost while an operation waits, and the search for another one is
cut off by the end. -/
theorem isolated_without_connection_of_loss :
    let p := ((create ⟨none, 1000, 1024, Settings.half, 1024⟩).run
      (trail ++ [.signal (.broken 1 .endOfInput)])).1
    let q := ((p.close (.timeout .init)).1.run [.signal .seeking, .signal .hungUp]).1
    p.state = .reconnecting ∧ p.pending = [] ∧ p.Detached ∧ (∃ e, p.Refuses e) ∧
      (p.close (.timeout .init)).2.2 = true ∧ q.Refuses (.timeout .init) ∧ q.Detached := by
  intro p q
  obtain ⟨hdead, hdown, hclose⟩ :=
    isolated_without_connection ⟨none, 1000, 1024, Settings.half, 1024⟩
    (trail ++ [.signal (.broken 1 .endOfInput)])
  have hstate : p.state = .reconnecting := by decide +kernel
  have hcloses : (p.close (.timeout .init)).2.2 = true := by decide +kernel
  obtain ⟨hpending, hrefuses⟩ := hdead (by rw [hstate]; exact nofun)
  obtain ⟨-, -, hq, hqdetached, -⟩ :=
    hclose (.timeout .init) hcloses [.signal .seeking, .signal .hungUp]
  exact ⟨hstate, hpending, hdown (.inr (.inl hstate)), hrefuses, hcloses, hq, hqdetached⟩

end Pipeline
end TupleClient
