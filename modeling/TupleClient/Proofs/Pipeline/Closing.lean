import TupleClient.Proofs.Lifecycle.Generations
import TupleClient.Proofs.Pipeline.Accounts
import TupleClient.Proofs.Pipeline.Replies

/-!
How the end of everything is told: once, with its reason in the cell, and for good.
-/
namespace TupleClient.Pipeline

variable {κ : Type} {p q : Pipeline κ} {r : Report κ} {why : ClientError → Prop}

/-- Steps from `p` to `q` tell of the end if they bring it, and of nothing behind it. `why` holds of
the reasons that they can bring it for. -/
structure Ends (why : ClientError → Prop) (p q : Pipeline κ) (r : Report κ) : Prop where
  kept : p.state = .closed → q.cell = p.cell ∧ .closed ∉ r.states
  brought : .closed ∈ r.states →
    q.state = .closed ∧ ∃ reason, why reason ∧ q.cell.terminal = some reason
  told : q.state = .closed → p.state = .closed ∨ .closed ∈ r.states

theorem Ends.of_cell_eq (hcell : q.cell = p.cell) (hstates : r.states = []) : Ends why p q r where
  kept _ := ⟨hcell, by simp [hstates]⟩
  brought h := by simp [hstates] at h
  told h := .inl (by rwa [state, hcell] at h)

theorem Ends.andThen {last : Pipeline κ} {s : Report κ} (h : Ends why p q r)
    (g : Ends why q last s) : Ends why p last (r.andThen s) where
  kept hp := by
    obtain ⟨hq, hr⟩ := h.kept hp
    obtain ⟨hlast, hs⟩ := g.kept (by rwa [state, hq])
    refine ⟨hlast.trans hq, ?_⟩
    rw [Report.states_andThen, List.mem_append]
    exact not_or.2 ⟨hr, hs⟩
  brought hclosed := by
    rw [Report.states_andThen, List.mem_append] at hclosed
    cases hclosed with
    | inl hr =>
      obtain ⟨hq, hreason⟩ := h.brought hr
      obtain ⟨hlast, -⟩ := g.kept hq
      rw [state, hlast]
      exact ⟨hq, hreason⟩
    | inr hs => exact g.brought hs
  told hlast := by
    rw [Report.states_andThen, List.mem_append]
    cases g.told hlast with
    | inl hq => exact (h.told hq).imp_right .inl
    | inr hs => exact .inr (.inr hs)

theorem Ends.of_enter {s : Lifecycle.State} (hp : p.state ≠ .closed) (hs : s ≠ .closed)
    (hq : q.state = s) (hr : r.states = [s]) : Ends why p q r where
  kept h := absurd h hp
  brought h := by
    rw [hr, List.mem_singleton] at h
    exact absurd h.symm hs
  told h := absurd (hq.symm.trans h) hs

theorem ends_complete (p : Pipeline κ) (id : Nat) (outcome : Outcome) :
    Ends why p (p.complete id outcome).1 (p.complete id outcome).2 := by
  unfold complete
  split
  · exact .of_cell_eq rfl rfl
  · exact .of_cell_eq rfl rfl

theorem states_teardown (p : Pipeline κ) (e : ClientError) : (p.teardown e).2.states = [] := by
  simp [Report.states, teardown]

theorem ends_fail (p : Pipeline κ) (generation : Nat) (e : ClientError) :
    Ends why p (p.fail generation e).1 (p.fail generation e).2.1 := by
  unfold fail
  split
  · rename_i cell hfail
    have hopen : p.state ≠ .closed := by
      intro hclosed
      have hignored := (Lifecycle.Cell.ignores_of_state (.inr hclosed) generation).1 e
      rw [hfail] at hignored
      cases hignored
    have hcell := (Lifecycle.Cell.fail_eq_enter (congrArg Prod.snd hfail)).2
    rw [hfail] at hcell
    refine .of_enter (s := .reconnecting) hopen nofun (congrArg Lifecycle.Cell.state hcell) ?_
    rw [Report.states_andThen, states_teardown]
    rfl
  · exact .of_cell_eq rfl rfl

theorem ends_close (p : Pipeline κ) {reason : ClientError} (hwhy : why reason) :
    Ends why p (p.close reason).1 (p.close reason).2.1 := by
  unfold close Lifecycle.Cell.close
  split
  · rename_i cell hclose
    split at hclose
    · cases hclose
    · rename_i hopen
      obtain ⟨rfl, -⟩ := Prod.mk.inj hclose
      have htold : .closed ∈ ((Report.entered .closed).andThen
          (teardown { p with cell := p.cell.enter .closed (some reason) } reason).2).states := by
        rw [Report.states_andThen, states_teardown]
        exact List.mem_singleton.2 rfl
      exact
        { kept := fun hclosed => absurd hclosed hopen
          brought := fun _ => ⟨rfl, reason, hwhy, rfl⟩
          told := fun _ => .inr htold }
  · exact .of_cell_eq rfl rfl

theorem ends_forceReconnect (p : Pipeline κ) :
    Ends why p p.forceReconnect.1 p.forceReconnect.2.1 := by
  unfold forceReconnect
  split
  · exact ends_fail ..
  · exact .of_cell_eq rfl rfl

theorem ends_transition (p : Pipeline κ) {source target : Lifecycle.State}
    (hsource : source ≠ .closed) (htarget : target ≠ .closed) :
    Ends why p (p.transition source target).1 (p.transition source target).2.1 := by
  unfold transition Lifecycle.Cell.transition
  split
  · rename_i cell htransition
    split at htransition
    · rename_i hedge
      obtain ⟨rfl, -⟩ := Prod.mk.inj htransition
      have hopen : p.state ≠ .closed := fun hclosed => hsource (hedge.1.symm.trans hclosed)
      exact .of_enter hopen htarget rfl rfl
    · cases htransition
  · exact .of_cell_eq rfl rfl

theorem ends_begin (p : Pipeline κ) : Ends why p p.begin.1 .silent where
  kept h := by
    have hconnecting : p.cell.state ≠ .connecting := by
      rw [state] at h
      rw [h]
      exact nofun
    refine ⟨?_, nofun⟩
    rw [Pipeline.begin, Lifecycle.Cell.begin, if_neg hconnecting]
  brought := nofun
  told h := by
    have hcell : p.cell.begin.1.state = .closed := h
    rw [Lifecycle.Cell.begin] at hcell
    split at hcell <;> exact .inl hcell

theorem ends_attach (p : Pipeline κ) (generation : Nat) (address : String) (rest : Bytes)
    (mishap : Option Mishap) :
    Ends why p (p.attach generation address rest mishap).1 .silent := by
  unfold attach
  split
  · split <;> exact .of_cell_eq rfl rfl
  · exact .of_cell_eq rfl rfl

theorem ends_writeDirect (p : Pipeline κ) (fault : Option String) (sync : Nat) (bytes : Bytes) :
    Ends why p (p.writeDirect fault sync bytes).1 (p.writeDirect fault sync bytes).2 := by
  unfold writeDirect
  split
  · exact ends_complete ..
  · exact .of_cell_eq rfl rfl
  · exact (ends_fail ..).andThen (ends_complete ..)

theorem ends_dispatchFrame (p : Pipeline κ) (fault : Option String) (sync : Nat) (bytes : Bytes) :
    Ends why p (p.dispatchFrame fault sync bytes).1 (p.dispatchFrame fault sync bytes).2 := by
  unfold dispatchFrame
  split
  · exact ends_writeDirect ..
  · split
    · exact .of_cell_eq rfl rfl
    · exact ends_complete ..

theorem ends_submit (p : Pipeline κ) (now : Nat) (fault : Option String) (s : Submission κ) :
    Ends why p (p.submit now fault s).1 (p.submit now fault s).2.1 := by
  simp only [submit]
  split
  · exact .of_cell_eq rfl rfl
  · split
    · exact .of_cell_eq rfl rfl
    · have hregister : Ends why p (register { p with nextSync := p.nextSync + 1 } now p.nextSync s)
          .silent := .of_cell_eq rfl rfl
      exact hregister.andThen (ends_dispatchFrame ..)

theorem ends_drain (p : Pipeline κ) (fault : Option String) :
    Ends why p (p.drain fault).1 (p.drain fault).2 := by
  unfold drain
  split
  · rename_i socket outbox b bs _ _
    have htaken : Ends why p { p with outbox := outbox } .silent := .of_cell_eq rfl rfl
    simp only
    split
    · exact .of_cell_eq rfl rfl
    · exact htaken.andThen (ends_fail ..)
  · exact .of_cell_eq rfl rfl

theorem ends_dispatch (p : Pipeline κ) (m : Message) :
    Ends why p (p.dispatch m).1 (p.dispatch m).2.1 := by
  refine .of_cell_eq (cell_dispatch p m) ?_
  rw [dispatch_eq]
  split
  · rfl
  · split
    · rfl
    · simp only
      split <;> rfl

theorem ends_readFrames (p : Pipeline κ) (generation : Nat) (ended : Bool) (input : Bytes) :
    Ends why p (p.readFrames generation ended input).1 (p.readFrames generation ended input).2 := by
  fun_induction readFrames p generation ended input with
  | case1 p input _ _ failed report _ hfail =>
    have h : Ends why p _ _ := ends_fail p generation ClientError.endOfInput
    rwa [hfail] at h
  | case2 p input _ _ => exact .of_cell_eq rfl rfl
  | case3 p input e _ _ failed report _ hfail =>
    have h : Ends why p _ _ := ends_fail p generation (.connection (.violation e.message))
    rwa [hfail] at h
  | case4 p input m rest _ next report hdispatch done more hmore ih =>
    have h : Ends why p _ _ := ends_dispatch p m
    rw [hdispatch] at h
    rw [hmore] at ih
    exact h.andThen ih
  | case5 p input m rest _ next report e hdispatch failed last _ hfail =>
    have h : Ends why p _ _ := ends_dispatch p m
    rw [hdispatch] at h
    have hlast : Ends why next _ _ := ends_fail next generation (.connection e)
    rw [hfail] at hlast
    exact h.andThen hlast

theorem ends_readOn (hcell : q.cell = p.cell) : Ends why p q.readOn.1 q.readOn.2 := by
  have hchanged : Ends why p q .silent := .of_cell_eq hcell rfl
  refine hchanged.andThen ?_
  unfold readOn
  split
  · split
    · exact ends_readFrames ..
    · exact .of_cell_eq rfl rfl
  · exact .of_cell_eq rfl rfl

theorem loopStarted_open {c d : Lifecycle.Cell} {generation : Nat} {loop : Lifecycle.Loop}
    (h : c.loopStarted generation loop = (d, true)) : c.state ≠ .closed ∧ d.state ≠ .closed := by
  unfold Lifecycle.Cell.loopStarted at h
  split at h
  · split at h
    · rename_i hafter
      obtain ⟨rfl, -⟩ := Prod.mk.inj h
      cases hstate : c.state <;> rw [hstate] at hafter <;> cases loop <;> cases hafter <;>
        exact ⟨nofun, nofun⟩
    · cases h
  · cases h

theorem ends_started (p : Pipeline κ) (generation : Nat) (loop : Lifecycle.Loop) :
    Ends why p (p.started generation loop).1 (p.started generation loop).2.1 := by
  unfold started
  split
  · rename_i cell hstarted
    obtain ⟨hbefore, hafter⟩ := loopStarted_open hstarted
    have hentered : Ends why p { p with cell := cell } (.entered cell.state) :=
      .of_enter hbefore hafter rfl rfl
    exact hentered.andThen (ends_readOn rfl)
  · exact .of_cell_eq rfl rfl

theorem ends_expireAll (p : Pipeline κ) (ids : List Nat) :
    Ends why p (p.expireAll ids).1 (p.expireAll ids).2 := by
  induction ids generalizing p with
  | nil => exact .of_cell_eq rfl rfl
  | cons id ids ih =>
    have h : Ends why p (p.expire id).1 (p.expire id).2 := ends_complete ..
    exact h.andThen (ih _)

theorem ends_signal (p : Pipeline κ) (s : Signal)
    (hwhy : ∀ reason, s = .closed reason → why reason) :
    Ends why p (p.signal s).1 (p.signal s).2 := by
  cases s with
  | supervised => exact ends_transition p nofun nofun
  | seeking => exact ends_transition p nofun nofun
  | begun => exact ends_begin p
  | attached generation address rest mishap => exact ends_attach ..
  | started generation loop => exact ends_started ..
  | writable fault => exact ends_drain ..
  | received bytes => exact ends_readOn rfl
  | hungUp => exact ends_readOn rfl
  | clock now =>
    have hserved : Ends why p { p with deadlines := (p.deadlines.service now).1 } .silent :=
      .of_cell_eq rfl rfl
    exact hserved.andThen (ends_expireAll ..)
  | expired id => exact ends_complete ..
  | broken generation e => exact ends_fail ..
  | reconnect => exact ends_forceReconnect p
  | closed reason => exact ends_close p (hwhy reason rfl)

end TupleClient.Pipeline
