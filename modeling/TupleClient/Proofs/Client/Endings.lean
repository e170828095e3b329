import TupleClient.Proofs.Client.Bookkeeping
import TupleClient.Proofs.Client.Fetching
import TupleClient.Proofs.Client.Supervising

/-!
A client that is closed: it stays so, nothing waits in it, and it asks for no socket any more.
-/
namespace TupleClient

theorem Retry.records_keep {κ : Type} {I : Pipeline (Owner κ) → Prop}
    (hstep : ∀ p x, I p → I (p.step x).1) {p q : Pipeline (Owner κ)} {notes : List (Note κ)}
    (h : Records p notes q) (hp : I p) : I q := by
  induction h with
  | nil p => exact hp
  | @submitted p q notes now fault s _ ih => exact ih (hstep p (.submit now fault s) hp)
  | @signalled p q notes s _ ih => exact ih (hstep p (.signal s) hp)
  | refreshed _ ih => exact ih hp
  | installed _ ih => exact ih hp

namespace Client

variable {κ : Type} {c c' : Client κ}

section Pipeline

variable {I : Pipeline (Retry.Owner (Tag κ)) → Prop} (hstep : ∀ p x, I p → I (p.step x).1)

include hstep

theorem keep_absorb (e : Retry.Event (Tag κ)) (h : I c.retry.pipeline) :
    I (c.absorb (c.retry.step e)).client.retry.pipeline :=
  Retry.records_keep hstep (Retry.records_step c.retry e) h

theorem Upkeep.keeps (hupkeep : Upkeep c c') (h : I c.retry.pipeline) : I c'.retry.pipeline :=
  hupkeep.carries (R := fun c c' => I c.retry.pipeline → I c'.retry.pipeline) (fun _ => id)
    (fun _ _ _ hfirst hnext => hnext ∘ hfirst) (fun _ s => keep_absorb hstep (.signal s))
    (fun _ now => keep_absorb hstep (.clock now)) (fun _ _ => id) h

theorem habit_keep :
    Habit fun (c : Client κ) t _ => I c.retry.pipeline → I t.client.retry.pipeline where
  andThen h g := g ∘ h
  aside hc h := fun hr => h (by rwa [hc.pipeline])
  words hc _ := fun hr => by rwa [hc.pipeline]
  event _ := keep_absorb hstep _

theorem keep_after (h : I c.retry.pipeline) (moves : List (Move κ)) :
    I (c.after moves).retry.pipeline := by
  induction moves generalizing c with
  | nil => exact h
  | cons m moves ih =>
    refine ih ((habit_keep hstep).act (fun _ _ h hc => h.keeps hstep hc)
      (fun _ _ _ h hc => h hc) c m h)

end Pipeline

theorem isolated_after (h : c.retry.pipeline.Isolated) (moves : List (Move κ)) :
    (c.after moves).retry.pipeline.Isolated := by
  have hstep (p : Pipeline (Retry.Owner (Tag κ))) (x : Pipeline.Event (Retry.Owner (Tag κ)))
      (hp : p.Isolated) : (p.step x).1.Isolated := Pipeline.isolated_step hp x
  exact keep_after hstep h moves

theorem isolated_start (s : Settings) (now : Nat) :
    (start (create s now) : Turn κ).client.retry.pipeline.Isolated := by
  have hstep (p : Pipeline (Retry.Owner (Tag κ))) (x : Pipeline.Event (Retry.Owner (Tag κ)))
      (hp : p.Isolated) : (p.step x).1.Isolated := Pipeline.isolated_step hp x
  exact keep_absorb hstep (c := create s now) (.signal .supervised)
    (Pipeline.isolated_create s.pipeline)

/-- A closed client stays closed through a turn in which it asks for no socket. -/
def Shut (c : Client κ) (t : Turn κ) : Prop :=
  c.state = .closed → t.client.state = .closed ∧ ∀ address, .dial address ∉ t.effects

theorem Shut.andThen {t : Turn κ} {f : Client κ → Turn κ} (h : Shut c t)
    (g : Shut t.client (f t.client)) :
    Shut c (t.andThen f) := by
  intro hc
  obtain ⟨hmid, hfirst⟩ := h hc
  obtain ⟨hlast, hrest⟩ := g hmid
  exact ⟨hlast, fun address hmem => (List.mem_append.1 hmem).elim (hfirst address) (hrest address)⟩

theorem shut_quiet (c : Client κ) : Shut c c.quiet := fun hc => ⟨hc, fun _ => List.not_mem_nil⟩

theorem dial_not_mem_absorb (c : Client κ) (step : Retry (Tag κ) × Report (Tag κ))
    (address : String) :
    .dial address ∉ (c.absorb step).effects := by
  intro hmem
  rcases List.mem_append.1 hmem with hsent | hhung
  · split at hsent <;> simp at hsent
  · split at hhung <;> simp at hhung

theorem shut_absorb (c : Client κ) (e : Retry.Event (Tag κ)) : Shut c (c.absorb (c.retry.step e)) :=
  fun hc => ⟨congrArg Lifecycle.Cell.state (Retry.cell_step hc e) |>.trans hc,
    dial_not_mem_absorb c _⟩

theorem shut_signal (c : Client κ) (s : Signal) : Shut c (c.signal s) := shut_absorb c (.signal s)

theorem shut_attach (now : Nat) (address : String) (rest : Bytes)
    (mishap : Option Pipeline.Mishap) : Shut c (c.attach now address rest mishap).1 := by
  intro hc
  have hbegin : c.retry.pipeline.begin = (c.retry.pipeline, none) := by
    have hcell : c.retry.pipeline.cell.begin = (c.retry.pipeline.cell, none) :=
      if_neg (by rw [show c.retry.pipeline.cell.state = .closed from hc]; exact nofun)
    simp only [Pipeline.begin, hcell]
  simp only [attach, hbegin]
  exact ⟨hc, fun _ => List.not_mem_nil⟩

theorem shut_obey (now : Nat) (mishap : Option Pipeline.Mishap) {orders : List Supervisor.Order}
    (h : ∀ address, Supervisor.Order.dial address ∉ orders) :
    Shut c (c.obey now mishap orders) := by
  induction orders generalizing c with
  | nil => exact shut_quiet c
  | cons order orders ih =>
    have hrest (address : String) : Supervisor.Order.dial address ∉ orders :=
      fun hmem => h address (List.mem_cons_of_mem _ hmem)
    have hline (c : Client κ) {effects : List (Effect κ)}
      (heffects : ∀ address, .dial address ∉ effects) :
        Shut c (Turn.andThen ⟨c, effects⟩ (·.obey now mishap orders)) :=
      Shut.andThen (t := ⟨c, effects⟩) (f := (·.obey now mishap orders))
        (fun hc => ⟨hc, heffects⟩) (ih hrest)
    cases order with
    | dial address => exact absurd List.mem_cons_self (h address)
    | close e => exact (shut_signal c _).andThen (f := (·.obey now mishap orders)) (ih hrest)
    | attach address more =>
      intro hc
      obtain ⟨hclosed, hdials⟩ := shut_attach now address more mishap hc
      refine hline (c.attach now address more mishap).1.client (fun address' hmem => ?_) hclosed
      rcases List.mem_append.1 hmem with hattach | hhung
      · exact hdials address' hattach
      · split at hhung <;> simp at hhung
    | send bytes => exact hline c (by simp)
    | hangUp => exact hline c (by simp)

theorem shut_supervised (now : Nat) (mishap : Option Pipeline.Mishap)
    {step : Supervisor × List Supervisor.Order}
    (h : c.state = .closed → ∀ address, Supervisor.Order.dial address ∉ step.2) :
    Shut c (c.supervised now mishap step) :=
  fun hc => shut_obey (c := { c with supervisor := step.1 }) now mishap (h hc) hc

theorem habit_shut : Habit fun (c : Client κ) t _ => Shut c t where
  andThen h g := h.andThen g
  aside hc h := fun hclosed => h (by rwa [state, hc.pipeline])
  words {c c' effects} hc hwords := fun hclosed =>
    ⟨by rwa [state, hc.pipeline], fun _ hmem => hwords _ hmem⟩
  event _ := shut_absorb _ _

theorem heeds_shut : Heeds fun (c : Client κ) t _ => Shut c t where
  habit := habit_shut
  broken c _ _ := shut_signal c _
  heeding _ now mishap _ _ := shut_supervised now mishap fun hclosed => Supervisor.dial_heed hclosed

theorem shut_act (c : Client κ) (m : Move κ) : Shut c (c.act m) :=
  heeds_shut.act (fun _ _ _ h hclosed => h hclosed) c m

/-- Everything has ended: nothing waits, there is no socket, and none will be asked for. -/
structure Over (c : Client κ) : Prop where
  state : c.state = .closed
  pending : c.retry.pipeline.pending = []
  detached : c.retry.pipeline.Detached
  dials : ∀ m address, .dial address ∉ (c.act m).effects

theorem over_after (hclosed : c.state = .closed) (hisolated : c.retry.pipeline.Isolated)
    (moves : List (Move κ)) : (c.after moves).Over := by
  have hlast : (c.after moves).state = .closed := by
    induction moves generalizing c with
    | nil => exact hclosed
    | cons m moves ih => exact ih (shut_act c m hclosed).1 (isolated_after hisolated [m])
  have hisolated' := isolated_after hisolated moves
  have hdead : (c.after moves).retry.pipeline.state ≠ .alive := by
    rw [show (c.after moves).retry.pipeline.state = .closed from hlast]
    exact nofun
  exact ⟨hlast, hisolated'.pending hdead, hisolated'.detached (.inr (.inr hlast)),
    fun m => (shut_act _ m hlast).2⟩

end Client
end TupleClient
