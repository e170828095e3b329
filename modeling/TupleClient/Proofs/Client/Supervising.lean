import TupleClient.Proofs.Client.Upkeep
import TupleClient.Proofs.Reconnect.Heeding

/-!
What the supervisor of a client is told, and when it is at rest: as long as there is a connection,
and at no other time is there one.
-/
namespace TupleClient

theorem Pipeline.Stays.none {κ : Type} {p q : Pipeline κ} (h : Stays p q) (hp : p.socket = none) :
    q.socket = none :=
  h.elim id fun ⟨hline, _⟩ => line?_eq_none.1 (hline.trans (line?_eq_none.2 hp))

namespace Client

open Supervisor (Order)

variable {κ : Type} {c c' : Client κ} {P : Client κ → Turn κ → List (κ × ClientError) → Prop}

def heeding (c : Client κ) (now : Nat) (mishap : Option Pipeline.Mishap)
    (event : Supervisor.Event Addresses) : Turn κ :=
  c.supervised now mishap (c.supervisor.heed ⟨now, c.state, .ok (), event⟩)

/-- A connection is wanted only when there is none, and so it is when everything has ended. -/
def Calm (c : Client κ) (event : Supervisor.Event Addresses) : Prop :=
  event = .begun ∨ event = .closed → c.state ≠ .alive

/-- What keeps a property of turns that the client takes by itself where it is told something of the
connection. -/
structure Heeds (P : Client κ → Turn κ → List (κ × ClientError) → Prop) : Prop where
  habit : Habit P
  broken : ∀ (c : Client κ) generation e, P c (c.signal (.broken generation e)) []
  heeding : ∀ (c : Client κ) now mishap event, Calm c event → P c (c.heeding now mishap event) []

theorem Heeds.heard (h : Heeds P) (c : Client κ) (now : Nat) {e : Event κ} (he : e.IsHeard) :
    P c (c.step now e) [] := by
  have hheeding (mishap : Option Pipeline.Mishap) (event : Supervisor.Event Addresses)
      (hbegun : event ≠ .begun) (hclosed : event ≠ .closed) : P c (c.heeding now mishap event) [] :=
    h.heeding c now mishap event fun hwanted => absurd hwanted (not_or.2 ⟨hbegun, hclosed⟩)
  cases e with
  | dialed result => exact hheeding none (.dialed result) (by simp) (by simp)
  | received bytes mishap =>
    rw [step]
    split
    · exact hheeding mishap (.received bytes) (by simp) (by simp)
    · exact h.habit.signal c (.received bytes) id (by simp)
  | hungUp =>
    rw [step]
    split
    · exact hheeding none .hungUp (by simp) (by simp)
    · exact h.habit.signal c .hungUp id (by simp)
  | broken reason =>
    rw [step]
    split
    · exact hheeding none (.broken reason) (by simp) (by simp)
    · split
      · exact h.broken c _ _
      · exact h.habit.quiet c
  | clock => exact he.elim
  | execute request tag => exact he.elim
  | close => exact he.elim

theorem Heeds.keepTime (h : Heeds P) (c : Client κ) (now : Nat) : P c (c.keepTime now) [] :=
  h.habit.andThen (f := fun c => c.supervised now none (c.supervisor.tick now c.state))
    (h.habit.andThen (f := fun c => c.absorb (c.retry.tick now))
      (h.habit.signal c (.clock now) id (by simp))
      (h.habit.call _ (.clock now) (by simp [Retry.gives]) (by simp)))
    (h.heeding _ now none .ticked (by rintro (hbegun | hclosed) <;> contradiction))

theorem state_seeking (h : c.state = .reconnecting) :
    (c.signal .seeking).client.state = .connecting := by
  have hstate : c.retry.pipeline.cell.state = .reconnecting := h
  rw [state, pipeline_signal]
  simp [Pipeline.signal, Pipeline.seek, Pipeline.transition, Lifecycle.Cell.transition, hstate,
    Lifecycle.State.canBecome, Pipeline.state, Lifecycle.Cell.enter]

theorem Heeds.attend (h : Heeds P) (c : Client κ) (now : Nat) : P c (c.attend now) [] := by
  unfold Client.attend
  split
  · rename_i hreconnecting
    split
    · have hsought := state_seeking hreconnecting
      refine h.habit.andThen (f := fun c => c.supervised now none (c.supervisor.begin now c.state))
        (h.habit.signal c .seeking id (by simp)) ?_
      exact h.heeding _ now none .begun fun _ => by
        rw [hsought]
        exact nofun
    · exact h.habit.quiet c
  · rename_i hclosed
    exact h.heeding c now none .closed fun _ => by
      rw [hclosed]
      exact nofun
  · exact h.habit.quiet c

theorem Heeds.step (h : Heeds P) (c : Client κ) (now : Nat) (e : Event κ) :
    P c (c.step now e) [] := by
  by_cases he : e.IsHeard
  · exact h.heard c now he
  · cases e with
    | clock =>
      exact h.habit.andThen (f := (·.tickOpening now)) (h.habit.andThen (f := (·.tickDiscovery now))
        (h.keepTime c now) (h.habit.tickDiscovery _ now)) (h.habit.tickOpening _ now)
    | execute request tag => exact h.habit.execute c now request tag
    | close => exact h.habit.shut c rfl
    | _ => exact absurd trivial he

theorem Heeds.act {R : Client κ → Turn κ → Prop} (h : Heeds fun c t _ => R c t)
    (hfetched : ∀ (c : Client κ) i t, R { c with ended := c.ended.eraseIdx i } t → R c t)
    (c : Client κ) (m : Move κ) : R c (c.act m) :=
  h.habit.turn (fun c now _ he => h.heard c now he) h.keepTime h.attend hfetched c m

/-- The socket is that of a connection in use, and then the supervisor is at rest. -/
structure Rested (c : Client κ) : Prop where
  use : c.InUse
  busy : c.supervisor.phase ≠ .idle → c.retry.pipeline.socket = none

theorem Rested.idle (h : c.Rested) (hsocket : c.retry.pipeline.socket ≠ none) :
    c.supervisor.phase = .idle := by
  by_contra hbusy
  exact hsocket (h.busy hbusy)

theorem InUse.socket (h : c.InUse) (hstate : c.state ≠ .alive) : c.retry.pipeline.socket = none :=
  Option.eq_none_iff_forall_ne_some.2 fun s hs => hstate (h s hs).2

theorem socket_signal {s : Signal} (hs : s.IsLater) (hsocket : c.retry.pipeline.socket = none) :
    (c.signal s).client.retry.pipeline.socket = none := by
  rw [pipeline_signal]
  exact (Pipeline.stays_signal _ hs).none hsocket

theorem socket_obey (now : Nat) (mishap : Option Pipeline.Mishap) {orders : List Order}
    (horders : orders.any Order.isAttach = false) (hsocket : c.retry.pipeline.socket = none) :
    (c.obey now mishap orders).client.retry.pipeline.socket = none := by
  induction orders generalizing c with
  | nil => exact hsocket
  | cons order orders ih =>
    rw [List.any_cons, Bool.or_eq_false_iff] at horders
    cases order with
    | attach address rest => cases horders.1
    | close e => exact ih horders.2 (socket_signal (s := .closed e) trivial hsocket)
    | dial address => exact ih horders.2 hsocket
    | send bytes => exact ih horders.2 hsocket
    | hangUp => exact ih horders.2 hsocket

theorem socket_startLoops (hsocket : c.retry.pipeline.socket = none) (generation : Nat)
    (mishap : Option Pipeline.Mishap) :
    (c.startLoops generation mishap).client.retry.pipeline.socket = none := by
  unfold startLoops
  have hwriter := socket_signal (s := .started generation .writer) trivial hsocket
  split
  · rw [client_andThen]
    exact socket_signal (s := .started generation .reader) trivial hwriter
  · exact hwriter
  · exact hsocket

theorem supervisor_startLoops (c : Client κ) (generation : Nat) (mishap : Option Pipeline.Mishap) :
    (c.startLoops generation mishap).client.supervisor = c.supervisor := by
  unfold startLoops
  split
  · rw [client_andThen, supervisor_signal, supervisor_signal]
  · rw [supervisor_signal]
  · rfl

/-- The supervisor goes to rest if it has a connection, and pauses if it has none after all. -/
theorem busy_attach {d : Campaign} {place : String} (hphase : c.supervisor.phase = .dialing d place)
    (hsocket : c.retry.pipeline.socket = none) (now : Nat) (address : String) (rest : Bytes)
    (mishap : Option Pipeline.Mishap)
    (hbusy : (c.attach now address rest mishap).1.client.supervisor.phase ≠ .idle) :
    (c.attach now address rest mishap).1.client.retry.pipeline.socket = none := by
  cases hbegin : c.retry.pipeline.begin with
  | mk p generation =>
    cases generation with
    | none =>
      simp only [attach, hbegin]
      exact hsocket
    | some generation =>
      cases mishap with
      | none =>
        refine absurd ?_ hbusy
        simp only [attach, hbegin, Pipeline.attach_of_begin hbegin address rest,
          supervisor_startLoops, Supervisor.attached, hphase]
        rfl
      | some mishap =>
        obtain ⟨-, hgone, -⟩ := Pipeline.detached_of_begin hbegin hsocket address rest mishap
        simp only [attach, hbegin]
        exact socket_startLoops (c := { c with
          supervisor := _, retry := { c.retry with pipeline := _ } }) hgone generation _

theorem rested_heeding (c : Client κ) (now : Nat) (mishap : Option Pipeline.Mishap)
    (event : Supervisor.Event Addresses) (hcalm : Calm c event) (h : c.Rested) :
    (c.heeding now mishap event).client.Rested := by
  refine ⟨(upkeep_supervised now mishap _).inUse h.use, fun hbusy => ?_⟩
  by_cases hsocket : c.retry.pipeline.socket = none
  · rcases Supervisor.orders_heed c.supervisor ⟨now, c.state, .ok (), event⟩ with
      hnone | ⟨bytes, k, address, rest, hphase, horders⟩
    · exact socket_obey now mishap hnone hsocket
    · let d : Client κ :=
        { c with supervisor := (c.supervisor.heed ⟨now, c.state, .ok (), event⟩).1 }
      have hturn : (c.heeding now mishap event).client =
          (d.attach now address rest mishap).1.client := by
        rw [heeding, supervised, horders]
        cases bytes <;> rfl
      rw [hturn] at hbusy ⊢
      exact busy_attach (c := d) hphase hsocket now address rest mishap hbusy
  · have hidle := h.idle hsocket
    obtain ⟨s, hs⟩ := Option.ne_none_iff_exists'.1 hsocket
    have halive : c.state = .alive := (h.use s hs).2
    obtain ⟨hphase, horders⟩ := Supervisor.heed_idle
      (m := ⟨now, c.state, .ok (), event⟩) hidle (fun he => hcalm (.inl he) halive)
      fun he => hcalm (.inr he) halive
    refine absurd ?_ hbusy
    rw [heeding, supervised, horders]
    exact hphase

theorem heeds_rested : Heeds fun (c : Client κ) t _ => c.Rested → t.client.Rested where
  habit :=
    { andThen := fun h g => g ∘ h
      aside := fun hc h hr => h ⟨by rw [InUse, hc.pipeline]; exact hr.use, by
        rw [hc.phase, hc.pipeline]
        exact hr.busy⟩
      words := fun hc _ hr => ⟨by rw [InUse, hc.pipeline]; exact hr.use, by
        rw [hc.phase, hc.pipeline]
        exact hr.busy⟩
      event := fun he hr => ⟨habit_inUse.event he hr.use, fun hbusy =>
        ((Retry.loses_step he.inner).quiet (hr.busy hbusy)).1⟩ }
  broken c generation e hr := ⟨hr.use.signal nofun, fun hbusy =>
    socket_signal (s := .broken generation e) trivial (hr.busy hbusy)⟩
  heeding c now mishap event hcalm hr := rested_heeding c now mishap event hcalm hr

theorem rested_act (h : c.Rested) (m : Move κ) : (c.act m).client.Rested :=
  heeds_rested.act (fun _ _ _ h hr => h ⟨hr.use, hr.busy⟩) c m h

theorem rested_after (s : Settings) (now : Nat) (moves : List (Move κ)) :
    ((start (create s now)).client.after moves).Rested := by
  have hstarted : (start (create s now) : Turn κ).client.Rested :=
    ⟨inUse_after s now [], fun _ => rfl⟩
  generalize (start (create s now)).client = c at hstarted
  induction moves generalizing c with
  | nil => exact hstarted
  | cons m moves ih => exact ih _ (rested_act hstarted m)

end Client
end TupleClient
