import TupleClient.Proofs.Client.Fetching
import TupleClient.Proofs.Client.Supervising

/-!
How a client makes its connections: by campaigns of its supervisor, which end it when they are given
up.
-/
namespace TupleClient.Client

open Supervisor (Log Moment Order)

variable {κ : Type} {c c' : Client κ} {l : Log Addresses}

/-- The log is one of the client's supervisor, and the client is closed for the reason for which it
was given up. -/
structure Linked (c : Client κ) (l : Log Addresses) : Prop where
  supervisor : l.supervisor.plain = c.supervisor
  closed : ∀ e ∈ l.closes, c.state = .closed ∧ c.retry.pipeline.cell.terminal = some e

def Leads (c c' : Client κ) : Prop := ∀ l, Linked c l → ∃ moments, Linked c' (l.run moments)

theorem Leads.trans {last : Client κ} (h : Leads c c') (g : Leads c' last) : Leads c last := by
  intro l hl
  obtain ⟨moments, hmoments⟩ := h l hl
  obtain ⟨more, hmore⟩ := g _ hmoments
  refine ⟨moments ++ more, ?_⟩
  rwa [Log.run, List.foldl_append]

theorem Linked.same (h : Linked c l) (hsupervisor : c'.supervisor = c.supervisor)
    (hcell : c.state = .closed → c'.retry.pipeline.cell = c.retry.pipeline.cell) : Linked c' l where
  supervisor := h.supervisor.trans hsupervisor.symm
  closed e he := by
    obtain ⟨hclosed, hterminal⟩ := h.closed e he
    have hcell := hcell hclosed
    exact ⟨(congrArg Lifecycle.Cell.state hcell).trans hclosed, hcell ▸ hterminal⟩

theorem leads_of_same (hsupervisor : c'.supervisor = c.supervisor)
    (hcell : c.state = .closed → c'.retry.pipeline.cell = c.retry.pipeline.cell) : Leads c c' :=
  fun _ hl => ⟨[], hl.same hsupervisor hcell⟩

theorem leads_absorb (e : Retry.Event (Tag κ)) : Leads c (c.absorb (c.retry.step e)).client :=
  leads_of_same rfl fun hclosed => Retry.cell_step hclosed e

theorem leads_signal (s : Signal) : Leads c (c.signal s).client := leads_absorb (.signal s)

theorem Linked.closes_next (h : Linked c l) {m : Moment Addresses} {e : ClientError}
    (he : e ∈ (l.next m).closes) :
    e ∈ l.closes ∨ m.state ≠ .closed ∧ (c.supervisor.heed m).2 = [.close e] := by
  have hput (l' : Log Addresses) {d : Campaign} (hold : ∀ e ∈ l'.closes, e ∈ l.closes)
      (hplain : l'.supervisor.plain = c.supervisor)
      (he : e ∈ (l'.put [] (l'.supervisor.pursue m.now m.state d) (Log.isClosing m)).closes) :
      e ∈ l.closes ∨ m.state ≠ .closed ∧ (c.supervisor.pursue m.now m.state d).2 = [.close e] := by
    have hbare := congrArg Prod.snd (Supervisor.bare_pursue l'.supervisor m.now m.state d)
    rw [hplain] at hbare
    rw [Log.closes, Log.put, List.filterMap_append, List.mem_append] at he
    refine he.imp (hold e) fun he => ?_
    cases Supervisor.pursued l'.supervisor m.now m.state d with
    | closed _ hstep =>
      rw [hstep] at he
      cases he
    | gaveUp n hopen _ _ hstep =>
      rw [hstep] at he hbare
      obtain rfl := List.mem_singleton.1 he
      exact ⟨hopen, hbare.symm⟩
    | nowhere _ _ _ hstep =>
      rw [hstep] at he
      cases he
    | dials _ _ _ _ hstep =>
      rw [hstep] at he
      cases he
  rcases Supervisor.moment_cases l m with ⟨hphase, hevent⟩ | ⟨d, till, hphase, hevent, htime⟩ |
    helse
  · rw [Supervisor.next_begun hphase hevent] at he
    have hphase' : c.supervisor.phase = .idle := h.supervisor ▸ hphase
    have hheed : c.supervisor.heed m = c.supervisor.pursue m.now m.state .start := by
      simp only [Supervisor.heed, Supervisor.heard, hevent, Supervisor.begin, hphase']
    rw [hheed]
    exact hput l.renew (fun _ hnone => absurd hnone List.not_mem_nil) h.supervisor he
  · rw [Supervisor.next_due hphase hevent htime] at he
    have hphase' : c.supervisor.phase = .pausing d till := h.supervisor ▸ hphase
    have hheed : c.supervisor.heed m = c.supervisor.pursue m.now m.state d := by
      simp only [Supervisor.heed, Supervisor.heard, hevent, Supervisor.tick, hphase', if_pos htime]
    rw [hheed]
    exact hput l (fun _ => id) h.supervisor he
  · obtain ⟨hnext, hquiet⟩ := Supervisor.next_else helse
    rw [hnext, hquiet.closes_put] at he
    exact .inl he

theorem Linked.next (h : Linked c l) {m : Moment Addresses}
    (hsupervisor : c'.supervisor =
      (Supervisor.answering m.now m.attaching (c.supervisor.heed m)).1)
    (hcell : c.state = .closed → c'.retry.pipeline.cell = c.retry.pipeline.cell)
    (hclose : ∀ e, m.state ≠ .closed → (c.supervisor.heed m).2 = [.close e] →
      c'.state = .closed ∧ c'.retry.pipeline.cell.terminal = some e) : Linked c' (l.next m) where
  supervisor := by rw [Supervisor.plain_next, h.supervisor, hsupervisor]
  closed e he := by
    rcases h.closes_next he with hold | ⟨hopen, horders⟩
    · obtain ⟨hclosed, hterminal⟩ := h.closed e hold
      have hcell := hcell hclosed
      exact ⟨(congrArg Lifecycle.Cell.state hcell).trans hclosed, hcell ▸ hterminal⟩
    · exact hclose e hopen horders

theorem leads_aside (h : Aside c c') : Leads c c' := by
  intro l hl
  refine ⟨[⟨0, .connecting, .ok (), .renewed c'.supervisor.addresses⟩], hl.next ?_ ?_ nofun⟩
  · have hsupervisor : c'.supervisor =
        ⟨c.supervisor.settings, c'.supervisor.addresses, c.supervisor.phase⟩ := by
      rw [← h.reconnect, ← h.phase]
    exact hsupervisor
  · intro _
    rw [h.pipeline]

def attaching (c : Client κ) (address : String) (rest : Bytes) (mishap : Option Pipeline.Mishap) :
    Except ClientError Unit :=
  match c.retry.pipeline.begin with
  | (_, none) => .error (.connection (.closed "closed while connecting"))
  | (p, some generation) => (p.attach generation address rest mishap).2

theorem supervisor_attach (c : Client κ) (now : Nat) (address : String) (rest : Bytes)
    (mishap : Option Pipeline.Mishap) :
    (c.attach now address rest mishap).1.client.supervisor =
      (c.supervisor.attached now (c.attaching address rest mishap)).1 := by
  cases hbegin : c.retry.pipeline.begin with
  | mk p generation =>
    cases generation with
    | none => simp only [attach, attaching, hbegin, quiet]
    | some generation => simp only [attach, attaching, hbegin, supervisor_startLoops]

theorem supervisor_obey (now : Nat) (mishap : Option Pipeline.Mishap) {orders : List Order}
    (h : orders.any Order.isAttach = false) :
    (c.obey now mishap orders).client.supervisor = c.supervisor := by
  induction orders generalizing c with
  | nil => rfl
  | cons order orders ih =>
    rw [List.any_cons, Bool.or_eq_false_iff] at h
    cases order with
    | attach address rest => cases h.1
    | close e => exact ih h.2
    | dial address => exact ih h.2
    | send bytes => exact ih h.2
    | hangUp => exact ih h.2

theorem leads_heeding (now : Nat) (mishap : Option Pipeline.Mishap)
    (event : Supervisor.Event Addresses) : Leads c (c.heeding now mishap event).client := by
  intro l hl
  rw [heeding]
  generalize hstep : c.supervisor.heed ⟨now, c.state, .ok (), event⟩ = step
  have hcell (hclosed : c.state = .closed) :
      (c.supervised now mishap step).client.retry.pipeline.cell = c.retry.pipeline.cell :=
    (upkeep_supervised now mishap step).cell hclosed
  have hclose (e : ClientError) (hopen : c.state ≠ .closed) (horders : step.2 = [.close e]) :
      (c.supervised now mishap step).client.state = .closed ∧
        (c.supervised now mishap step).client.retry.pipeline.cell.terminal = some e := by
    obtain ⟨hstate, hterminal, -⟩ := Retry.signal_closed (r := c.retry) hopen e
    rw [supervised, horders]
    exact ⟨hstate, hterminal⟩
  -- What is done at a moment does not depend on how an order to attach will be answered.
  have hmoment {attached : Except ClientError Unit} (hsupervisor :
      (c.supervised now mishap step).client.supervisor =
        (Supervisor.answering now attached step).1) :
      Linked (c.supervised now mishap step).client (l.next ⟨now, c.state, attached, event⟩) := by
    have hheed : c.supervisor.heed ⟨now, c.state, attached, event⟩ = step := hstep
    refine hl.next (hheed.symm ▸ hsupervisor) hcell fun e hopen horders => hclose e hopen ?_
    rw [← hheed]
    exact horders
  have horders := Supervisor.orders_heed c.supervisor ⟨now, c.state, .ok (), event⟩
  rw [hstep] at horders
  rcases horders with hnone | ⟨bytes, k, address, rest, -, hattach⟩
  · refine ⟨[⟨now, c.state, .ok (), event⟩], hmoment ?_⟩
    rw [supervised, supervisor_obey now mishap hnone, Supervisor.answering,
      if_neg (by simp [hnone])]
  · refine ⟨[⟨now, c.state, attaching c address rest mishap, event⟩], hmoment ?_⟩
    have hclient : (c.supervised now mishap step).client =
        (attach { c with supervisor := step.1 } now address rest mishap).1.client := by
      rw [supervised, hattach]
      cases bytes <;> rfl
    have hany : step.2.any Order.isAttach = true := by
      rw [hattach]
      cases bytes <;> rfl
    rw [hclient, supervisor_attach, Supervisor.answering, if_pos hany]
    rfl

theorem heeds_leads : Heeds fun (c : Client κ) t _ => Leads c t.client where
  habit :=
    { andThen := fun h g => h.trans g
      aside := fun hc h => (leads_aside hc).trans h
      words := fun hc _ => leads_aside hc
      event := fun _ => leads_absorb _ }
  broken _ generation e := leads_signal (.broken generation e)
  heeding _ now mishap event _ := leads_heeding now mishap event

theorem leads_act (c : Client κ) (m : Move κ) : Leads c (c.act m).client := by
  refine heeds_leads.act (fun c i t h => ?_) c m
  have hfetched : Leads c { c with ended := c.ended.eraseIdx i } :=
    leads_of_same rfl fun _ => rfl
  exact hfetched.trans h

theorem linked_after (s : Settings) (start : Nat) (moves : List (Move κ)) :
    ∃ moments, Linked ((Client.start (create s start)).client.after moves)
      ((Log.idle s.reconnect (addressesOf s)).run moments) := by
  have hstarted : Linked (Client.start (create s start) : Turn κ).client
      (Log.idle s.reconnect (addressesOf s)) := ⟨rfl, nofun⟩
  have hleads (c : Client κ) : Leads c (c.after moves) := by
    induction moves generalizing c with
    | nil => exact leads_of_same rfl fun _ => rfl
    | cons m moves ih => exact (leads_act c m).trans (ih _)
  exact hleads _ _ hstarted

/-- A client that was given up: it is closed for good, and all operations that waited have ended
with the reason, those that were parked right behind what had ended before. The user is told of
each, at the latest when all outcomes have been fetched. -/
structure GivenUp (c : Client κ) (t : Turn κ) (e : ClientError) : Prop where
  state : t.client.state = .closed
  terminal : t.client.retry.pipeline.cell.terminal = some e
  closed : t.client.retry.closed = some e
  parked : t.client.retry.parked = []
  pending : t.client.retry.pipeline.pending = []
  ended : t.client.ended = c.ended ++ ((c.retry.parked.map fun p => (p.tag, .error e)) ++
    (Retry.owners c.retry.pipeline).map fun o => (o.tag, .error e))
  told : ∀ p ∈ c.retry.parked, ∀ tag, p.tag = .user tag → ∀ moves : List (Move κ),
    t.client.ended.length ≤ moves.countP Move.fetchesFirst →
      ∃ before m later, moves = before ++ m :: later ∧
        ((t.client.after before).act m).effects = [.finished tag (.error e)]

theorem givenUp_obey (hopen : c.state ≠ .closed) (given : Nat) (s : Supervisor) (e : ClientError) :
    GivenUp c (c.supervised given none (s, [.close e])) e := by
  obtain ⟨hstate, hterminal, hpending, hparked, hclosed, hhappenings⟩ :=
    Retry.signal_closed (r := c.retry) hopen e
  have hended : (c.supervised given none (s, [.close e])).client.ended =
      c.ended ++ ((c.retry.parked.map fun p => (p.tag, .error e)) ++
        (Retry.owners c.retry.pipeline).map fun o => (o.tag, .error e)) := by
    refine congrArg (c.ended ++ ·) ?_
    rw [Report.outcomes, hhappenings]
    simp [List.filterMap_map]
  refine ⟨hstate, hterminal, hclosed, hparked, hpending, hended, ?_⟩
  intro p hp tag htag moves hcount
  refine told_within ?_ hcount
  rw [hended, ← htag]
  exact List.mem_append_right _ (List.mem_append_left _ (List.mem_map_of_mem hp))

theorem close_pursue {s : Supervisor} {now : Nat} {state : Lifecycle.State} {d : Campaign}
    {e : ClientError} (h : .close e ∈ (s.pursue now state d).2) :
    state ≠ .closed ∧ s.pursue now state d = (s.inPhase .stopped, [.close e]) := by
  unfold Supervisor.pursue at h ⊢
  cases hdecide : d.decide s.settings.retries state with
  | stop => simp [hdecide] at h
  | attempt =>
    simp only [hdecide] at h
    split at h <;> simp at h
  | giveUp reason =>
    obtain rfl : e = reason := by simpa [hdecide] using h
    refine ⟨?_, by simp only⟩
    rintro rfl
    simp [Campaign.decide] at hdecide

theorem givenUp_supervised {now : Nat} {step : Supervisor × List Order} {e : ClientError}
    (hstep : step = c.supervisor.begin now c.state ∨ step = c.supervisor.tick now c.state)
    (hclose : .close e ∈ step.2) : GivenUp c (c.supervised now none step) e := by
  obtain ⟨d, hpursue⟩ : ∃ d, step = c.supervisor.pursue now c.state d := by
    rcases hstep with rfl | rfl
    · unfold Supervisor.begin at hclose ⊢
      split at hclose
      · exact ⟨_, rfl⟩
      · cases hclose
    · unfold Supervisor.tick at hclose ⊢
      split at hclose
      · split at hclose
        · exact ⟨_, if_pos ‹_›⟩
        · cases hclose
      · split at hclose
        · simp [Handshake.timedOut] at hclose
        · cases hclose
      · cases hclose
  rw [hpursue] at hclose ⊢
  obtain ⟨hopen, hstops⟩ := close_pursue hclose
  rw [hstops]
  exact givenUp_obey hopen now _ e

/-- Over any source of addresses and whatever comes of the attempts, a supervisor keeps to the order
of its campaigns. The supervisor of a client is such a one, in every run, and where it was given up
the client is closed for that reason. It is closed in the turn in which it is given up, and all that
waits ends with the reason. -/
theorem reconnects (κ : Type) :
    (∀ (α : Type) [AddressSource α] (settings : ReconnectSettings) (source : α)
      (moments : List (Moment α)),
      Supervisor.Orderly settings ((Log.idle settings source).run moments)) ∧
    (∀ (s : Settings) (start : Nat) (moves : List (Move κ)), ∃ moments,
      Linked ((Client.start (create s start)).client.after moves)
        ((Log.idle s.reconnect (addressesOf s)).run moments)) ∧
    ∀ (c : Client κ) (now : Nat) (step : Supervisor × List Order) (e : ClientError),
      step = c.supervisor.begin now c.state ∨ step = c.supervisor.tick now c.state →
      .close e ∈ step.2 → GivenUp c (c.supervised now none step) e :=
  ⟨fun _ => Supervisor.orderly_run, linked_after, fun _ _ _ _ => givenUp_supervised⟩

def impatient : Settings := { clustered with retries := some 1 }

def unreached : Client Unit :=
  (start (create impatient 0)).client.after
    [.proceed 0 .supervisor, .event 0 (.execute .ping ()),
      .event 0 (.dialed (.error .notConnected))]

theorem reconnects_of_unreached :
    let e : ClientError :=
      .connection (.exhausted 1 (ClientError.message (.connection .notConnected)))
    unreached.retry.parked.length = 1 ∧
      .close e ∈ (unreached.supervisor.tick 500 unreached.state).2 ∧
      GivenUp unreached
        (unreached.supervised 500 none (unreached.supervisor.tick 500 unreached.state)) e := by
  have hparked : unreached.retry.parked.length = 1 := by decide +kernel
  have hclose :
      .close (.connection (.exhausted 1 (ClientError.message (.connection .notConnected)))) ∈
      (unreached.supervisor.tick 500 unreached.state).2 := by
    have horders : (unreached.supervisor.tick 500 unreached.state).2.filterMap Order.close? =
        [.connection (.exhausted 1 (ClientError.message (.connection .notConnected)))] := by
      decide +kernel
    have hmem := List.mem_filterMap.1 (horders ▸ List.mem_singleton.2 rfl)
    obtain ⟨order, hmem, horder⟩ := hmem
    cases order with
    | close reason =>
      obtain rfl := Option.some.inj horder
      exact hmem
    | _ => cases horder
  exact ⟨hparked, hclose, (reconnects Unit).2.2 unreached 500 _ _ (.inr rfl) hclose⟩

end TupleClient.Client
