import TupleClient.Proofs.Reconnect.Campaigns

/-!
A supervisor whose source of addresses takes no notes. The notes are only to tell the attempts
apart: without them all goes the same way.
-/
namespace TupleClient.Supervisor

variable {α : Type} [AddressSource α]

def plain (s : Supervisor (Noting α)) : Supervisor α := ⟨s.settings, s.addresses.source, s.phase⟩

def heed (s : Supervisor α) (m : Moment α) : Supervisor α × List Order :=
  s.heard (fun source _ => source) m

def bare (step : Supervisor (Noting α) × List Order) : Supervisor α × List Order :=
  (step.1.plain, step.2)

theorem bare_pursue (s : Supervisor (Noting α)) (now : Nat) (state : Lifecycle.State)
    (c : Campaign) :
    bare (s.pursue now state c) = s.plain.pursue now state c := by
  unfold pursue
  rw [show s.plain.settings = s.settings from rfl]
  cases c.decide s.settings.retries state with
  | stop => rfl
  | giveUp e => rfl
  | attempt =>
    cases hnext : AddressSource.next s.addresses.source c.attempt c.last with
    | mk source address =>
      cases address <;> simp [AddressSource.next, hnext, bare, plain, pause, inPhase]

omit [AddressSource α] in
theorem bare_shaken (s : Supervisor (Noting α)) (now : Nat) (c : Campaign) (address : String)
    (result : Bytes × (Handshake ⊕ Handshake.Result)) :
    bare (s.shaken now c address result) = s.plain.shaken now c address result := by
  obtain ⟨bytes, outcome⟩ := result
  cases outcome with
  | inl h => rfl
  | inr result => cases result <;> rfl

theorem bare_told (s : Supervisor (Noting α)) (m : Moment α) :
    bare (s.told m) = s.plain.heed m := by
  obtain ⟨settings, addresses, phase⟩ := s
  obtain ⟨now, state, attaching, event⟩ := m
  cases event with
  | begun =>
    cases phase with
    | idle => exact bare_pursue ..
    | _ => rfl
  | dialed result =>
    cases phase with
    | dialing c address =>
      cases result with
      | ok u => exact bare_shaken ..
      | error e => rfl
    | stopped => cases result <;> rfl
    | _ => rfl
  | received bytes =>
    cases phase with
    | shaking c address h till => exact bare_shaken ..
    | _ => rfl
  | ticked =>
    cases phase with
    | pausing c till =>
      simp only [told, heed, heard, tick, plain]
      split
      · exact bare_pursue ..
      · rfl
    | shaking c address h till =>
      simp only [told, heed, heard, tick, plain]
      split <;> rfl
    | _ => rfl
  | _ => cases phase <;> rfl

theorem bare_react (s : Supervisor (Noting α)) (m : Moment α) :
    bare (s.react m) = answering m.now m.attaching (s.plain.heed m) := by
  rw [← bare_told, react, answering, answering, show (bare (s.told m)).2 = (s.told m).2 from rfl]
  split
  · obtain ⟨⟨settings, addresses, phase⟩, orders⟩ := s.told m
    cases phase with
    | dialing c address => cases m.attaching <;> rfl
    | _ => cases m.attaching <;> rfl
  · rfl

theorem plain_next (l : Log α) (m : Moment α) :
    (l.next m).supervisor.plain = (answering m.now m.attaching (l.supervisor.plain.heed m)).1 := by
  have hreact {l' : Log α} (h : l'.supervisor.plain = l.supervisor.plain) :
      (l'.supervisor.react m).1.plain =
        (answering m.now m.attaching (l.supervisor.plain.heed m)).1 := by
    rw [← h, ← bare_react]
    rfl
  rw [Log.next]
  split
  · exact hreact rfl
  · exact hreact rfl

omit [AddressSource α] in
theorem orders_shaken (s : Supervisor α) (now : Nat) (c : Campaign) (address : String)
    (result : Bytes × (Handshake ⊕ Handshake.Result)) :
    (s.shaken now c address result).2.any Order.isAttach = false ∨
      ∃ bytes d address' rest, (s.shaken now c address result).1.phase = .dialing d address' ∧
        (s.shaken now c address result).2 =
          (if bytes.isEmpty then [] else [.send bytes]) ++ [.attach address' rest] := by
  obtain ⟨bytes, outcome⟩ := result
  cases outcome with
  | inl h => cases bytes <;> exact .inl rfl
  | inr result =>
    cases result with
    | established g rest => exact .inr ⟨bytes, c, address, rest, rfl, rfl⟩
    | failed e => cases bytes <;> exact .inl rfl

/-- All that a supervisor may do when it is told something: it goes on with a campaign or with a
handshake, or does no more than let a socket go. -/
inductive Heeded (s : Supervisor α) (m : Moment α) : Supervisor α × List Order → Prop where
  | rests {next : Supervisor α} {orders : List Order} (h : orders = [] ∨ orders = [.hangUp]) :
      Heeded s m (next, orders)
  | pursues (c : Campaign) : Heeded s m (s.pursue m.now m.state c)
  | shakes (c : Campaign) (address : String) (result : Bytes × (Handshake ⊕ Handshake.Result)) :
      Heeded s m (s.shaken m.now c address result)

theorem heeded (s : Supervisor α) (m : Moment α) : Heeded s m (s.heed m) := by
  obtain ⟨settings, addresses, phase⟩ := s
  obtain ⟨now, state, attaching, event⟩ := m
  cases event with
  | begun =>
    cases phase with
    | idle => exact .pursues .start
    | _ => exact .rests (.inl rfl)
  | dialed result =>
    cases phase with
    | dialing c address =>
      cases result with
      | ok u =>
        exact .shakes c address (Handshake.start settings.credentials settings.maxFrame).advance
      | error e => exact .rests (.inl rfl)
    | stopped => cases result <;> exact .rests (by simp)
    | _ => exact .rests (.inl rfl)
  | received bytes =>
    cases phase with
    | shaking c address h till => exact .shakes c address (h.receive bytes)
    | _ => exact .rests (.inl rfl)
  | ticked =>
    simp only [heed, heard, tick]
    split
    · split
      · exact .pursues _
      · exact .rests (.inl rfl)
    · split
      · split <;> exact .rests (by simp)
      · exact .rests (.inl rfl)
    · exact .rests (.inl rfl)
  | renewed source => exact .rests (.inl rfl)
  | _ => cases phase <;> exact .rests (by simp)

/-- A connection is ordered to be taken into use last, and only bytes are sent before. Then there is
an attempt of which that is the end. -/
theorem orders_heed (s : Supervisor α) (m : Moment α) :
    (s.heed m).2.any Order.isAttach = false ∨
      ∃ bytes c address rest, (s.heed m).1.phase = .dialing c address ∧
        (s.heed m).2 = (if bytes.isEmpty then [] else [.send bytes]) ++ [.attach address rest] := by
  have hheeded := heeded s m
  generalize s.heed m = step at hheeded
  cases hheeded with
  | rests h => rcases h with rfl | rfl <;> exact .inl rfl
  | pursues c => exact .inl (attach_pursue s m.now m.state c)
  | shakes c address result => exact orders_shaken ..

theorem dial_heed {s : Supervisor α} {m : Moment α} (hclosed : m.state = .closed)
    (address : String) : .dial address ∉ (s.heed m).2 := by
  have hheeded := heeded s m
  generalize s.heed m = step at hheeded
  cases hheeded with
  | rests h => rcases h with rfl | rfl <;> simp
  | pursues c => simp [pursue, Campaign.decide, hclosed]
  | shakes c place result =>
    obtain ⟨sent, h | ⟨g, rest⟩ | e⟩ := result <;> cases sent <;> simp [shaken]

theorem heed_idle {s : Supervisor α} {m : Moment α} (hphase : s.phase = .idle)
    (hbegun : m.event ≠ .begun) (hclosed : m.event ≠ .closed) :
    (s.heed m).1.phase = .idle ∧ (s.heed m).2 = [] := by
  obtain ⟨settings, addresses, phase⟩ := s
  obtain ⟨now, state, attaching, event⟩ := m
  obtain rfl : phase = .idle := hphase
  cases event with
  | begun => exact absurd rfl hbegun
  | closed => exact absurd rfl hclosed
  | dialed result => cases result <;> exact ⟨rfl, rfl⟩
  | _ => exact ⟨rfl, rfl⟩

end TupleClient.Supervisor
