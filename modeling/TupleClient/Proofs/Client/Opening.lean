import TupleClient.Proofs.Client.Endings
import TupleClient.Proofs.Client.Readings
import TupleClient.Proofs.Pipeline.Breaking
import TupleClient.Proofs.Pipeline.Timers

/-!
A client that does nothing but open. It keeps up its connection, and the only operations are the
reads of the catalog.
-/
namespace TupleClient

theorem Retry.resubmit_of_parked_nil {κ : Type} {r : Retry κ} (h : r.parked = []) (now : Nat)
    (fault : Option String) : r.resubmit now fault = (r, .silent) := by
  have hsame : { r with parked := [] } = r := by rw [← h]
  simp [resubmit, h, submitAll, hsame]

/-- No connection comes into use when the supervisor looks at the clock. -/
theorem Supervisor.attach_tick {α : Type} [AddressSource α] (s : Supervisor α) (now : Nat)
    (state : Lifecycle.State) : (s.tick now state).2.any Order.isAttach = false := by
  unfold tick
  split
  · split
    · exact attach_pursue ..
    · rfl
  · split
    · split <;> rfl
    · rfl
  · rfl

namespace Client

variable {κ : Type} {limit : Nat} {c c' : Client κ} {t : Turn κ} {m : Move κ}

structure Bare (c : Client κ) : Prop where
  held : ∀ x ∈ c.retry.held, ∃ n, x = (none, .read n)
  ended : ∀ x ∈ c.ended, ∃ n, x.1 = .read n

theorem Bare.parked (h : c.Bare) : c.retry.parked = [] := by
  refine List.eq_nil_iff_forall_not_mem.2 fun e he => ?_
  obtain ⟨n, hentry⟩ := h.held e.label (List.mem_append_right _ (List.mem_map_of_mem he))
  cases hentry

theorem Bare.absorb (h : c.Bare) (hbooked : c.Booked limit) (e : Retry.Event (Tag κ))
    (he : ∀ x ∈ c.retry.gives e, ∃ n, x = (none, .read n)) :
    (c.absorb (c.retry.step e)).client.Bare := by
  obtain ⟨told, htold, hperm⟩ :=
    (Retry.custody_step hbooked.sound hbooked.entered e fun _ _ => trivial).accounts
  have hall : ∀ x ∈ told ++ (c.retry.step e).1.held, ∃ n, x = (none, .read n) :=
    fun x hx => List.forall_mem_append.2 ⟨h.held, he⟩ x (hperm.subset hx)
  refine ⟨fun x hx => hall x (List.mem_append_right _ hx),
    List.forall_mem_append.2 ⟨h.ended, fun x hx => ?_⟩⟩
  have htag : x.1 ∈ (c.retry.step e).2.tags := List.mem_map_of_mem hx
  rw [← htold] at htag
  obtain ⟨label, hlabel, hsame⟩ := List.mem_map.1 htag
  obtain ⟨n, rfl⟩ := hall label (List.mem_append_left _ hlabel)
  exact ⟨n, hsame.symm⟩

/-- Nothing is asked for yet, neither by the user nor about the members, and the catalog is empty.
-/
structure Alone (limit : Nat) (c : Client κ) : Prop where
  booked : c.Booked limit
  bare : c.Bare
  catalog : c.retry.catalog = some ⟨limit, .empty⟩
  discovery : c.discovery.next = none

theorem Alone.absorb (h : Alone limit c) (e : Retry.Event (Tag κ)) (he : c.retry.gives e = [])
    (hcatalog : (c.retry.step e).1.catalog = c.retry.catalog) :
    Alone limit (c.absorb (c.retry.step e)).client where
  booked := (h.booked.samePlaces_absorb e he).booked
  bare := h.bare.absorb h.booked e (he ▸ List.forall_mem_nil _)
  catalog := hcatalog.trans h.catalog
  discovery := h.discovery

theorem Upkeep.alone (hupkeep : Upkeep c c') (h : Alone limit c) : Alone limit c' := by
  refine hupkeep.carries (R := fun c c' => Alone limit c → Alone limit c') (fun _ => id)
    (fun _ _ _ hfirst hnext => hnext ∘ hfirst)
    (fun _ s h => h.absorb (.signal s) rfl (Retry.catalog_absorb ..)) (fun c now h => ?_)
    (fun c s h => ⟨{ h.booked with }, ⟨h.bare.held, h.bare.ended⟩, h.catalog, h.discovery⟩) h
  have hcatalog : (c.retry.tick now).1.catalog = c.retry.catalog := Retry.catalog_expireAll ..
  exact h.absorb (.clock now) rfl hcatalog

theorem Alone.beginReplay (h : Alone limit c) (now : Nat) :
    ∃ replays,
      c.beginReplay now = quiet { c with retry := { c.retry with replays := replays } } := by
  let r := { c.retry with replays := c.retry.replays - 1 }
  have hparked : r.parked = [] := h.bare.parked
  have hneeds : r.needsRefresh = false := by
    rw [Retry.needsRefresh, hparked]
    rfl
  refine ⟨c.retry.replays - 1, ?_⟩
  have hbegun : c.beginReplay now =
      Client.absorb { c with retry := r } (r.resubmit now none) := by
    unfold Client.beginReplay
    simp only [
      show ({ c.retry with replays := c.retry.replays - 1 } : Retry (Tag κ)) = r from rfl, hneeds]
    rfl
  rw [hbegun, Retry.resubmit_of_parked_nil hparked]
  simp [Client.absorb, Report.silent, Report.outcomes, quiet, r]

/-- While the client is opened there is nobody else to be asked for when it looks at the clock. -/
theorem Alone.tick (h : Alone limit c) (now : Nat) :
    c.tick now = (c.keepTime now).andThen (·.tickOpening now) := by
  have hdiscovery : (c.keepTime now).client.discovery.next = none := by
    rw [(upkeep_keepTime c now).beside.discovery]
    exact h.discovery
  have hquiet : (c.keepTime now).client.tickDiscovery now = (c.keepTime now).client.quiet := by
    unfold tickDiscovery
    split
    · rename_i hnext
      rw [hdiscovery] at hnext
      cases hnext
    · rfl
  rw [tick_eq]
  simp [Turn.andThen, hquiet, quiet]

inductive Tends (c c' : Client κ) : Prop where
  | kept (h : Upkeep c c')
  | replayed (replays : Nat) (h : c' = { c with retry := { c.retry with replays := replays } })

theorem Tends.alone (h : Tends c c') (halone : Alone limit c) : Alone limit c' := by
  cases h with
  | kept h => exact h.alone halone
  | replayed replays h =>
    subst h
    have hbooked := halone.booked
    exact
      { booked :=
          { hbooked with
            sound := ⟨hbooked.sound.numbered, hbooked.sound.sent,
              ⟨hbooked.sound.kept.rearmed, hbooked.sound.kept.closed⟩, hbooked.sound.closed⟩
            entered := ⟨hbooked.entered.distinct, hbooked.entered.lt_nextEntry⟩ }
        bare := ⟨halone.bare.held, halone.bare.ended⟩
        catalog := halone.catalog
        discovery := halone.discovery }

theorem Tends.beside (h : Tends c c') : Beside c c' := by
  cases h with
  | kept h => exact h.beside
  | replayed replays h =>
    subst h
    exact ⟨rfl, rfl, rfl, rfl, rfl, rfl, [], (List.append_nil _).symm⟩

theorem Tends.holds (h : Tends c c') : Pipeline.Holds c.retry.pipeline c'.retry.pipeline := by
  cases h with
  | kept h =>
    refine h.carries (R := fun c c' => Pipeline.Holds c.retry.pipeline c'.retry.pipeline)
      (fun _ => .refl _) (fun _ _ _ => .trans) (fun c s => ?_) (fun c now => ?_) fun _ _ => .refl _
    · rw [pipeline_signal]
      exact Pipeline.holds_signal _ s
    · have hpipeline : (c.absorb (c.retry.tick now)).client.retry.pipeline = c.retry.pipeline :=
        Retry.pipeline_expireAll ..
      rw [hpipeline]
      exact .refl _
  | replayed replays h =>
    subst h
    exact .refl _

structure Fewer (c c' : Client κ) : Prop where
  timed : c'.retry.pipeline.Timed
  pending : ∀ x ∈ c'.retry.pipeline.pending, x ∈ c.retry.pipeline.pending

theorem Fewer.trans {last : Client κ} (h : Fewer c c') (g : Fewer c' last) : Fewer c last :=
  ⟨g.timed, fun x hx => h.pending x (g.pending x hx)⟩

theorem fewer_signal (htimed : c.retry.pipeline.Timed) (s : Signal) :
    Fewer c (c.signal s).client := by
  have hpipeline : (c.signal s).client.retry.pipeline = (c.retry.pipeline.step (.signal s)).1 :=
    pipeline_signal c s
  refine ⟨hpipeline ▸ Pipeline.timed_step htimed _, fun x hx => ?_⟩
  rw [hpipeline] at hx
  rcases (Pipeline.parts_step _ _).pending htimed hx with hold | ⟨_, _, _, hsubmit, -⟩
  · exact hold
  · cases hsubmit

theorem Upkeep.fewer (h : Upkeep c c') (htimed : c.retry.pipeline.Timed) : Fewer c c' := by
  refine h.carries (R := fun c c' => c.retry.pipeline.Timed → Fewer c c')
    (fun _ htimed => ⟨htimed, fun _ => id⟩) ?_ (fun _ s htimed => fewer_signal htimed s)
    (fun c now htimed => ?_) (fun _ _ htimed => ⟨htimed, fun _ => id⟩) htimed
  · intro first next last hfirst hnext htimed
    exact (hfirst htimed).trans (hnext (hfirst htimed).timed)
  · have hpipeline : (c.absorb (c.retry.tick now)).client.retry.pipeline = c.retry.pipeline :=
      Retry.pipeline_expireAll ..
    exact ⟨hpipeline ▸ htimed, fun x hx => hpipeline ▸ hx⟩

theorem Tends.fewer (h : Tends c c') (htimed : c.retry.pipeline.Timed) : Fewer c c' := by
  cases h with
  | kept h => exact h.fewer htimed
  | replayed replays h =>
    subst h
    exact ⟨htimed, fun _ => id⟩

/-- Each operation that waits has an end of its time, if operations have one. -/
structure Dated (c : Client κ) : Prop where
  timed : c.retry.pipeline.Timed
  dated : c.settings.operationTimeout ≠ none →
    ∀ x ∈ c.retry.pipeline.pending, x.2.deadline ≠ none

theorem Tends.dated (h : Tends c c') (hc : c.Dated) : c'.Dated := by
  have hfewer := h.fewer hc.timed
  exact ⟨hfewer.timed, fun htimeout x hx =>
    hc.dated (h.beside.settings ▸ htimeout) x (hfewer.pending x hx)⟩

theorem Dated.readFor (h : c.Dated) (now : Nat) (t : Task κ) : (c.readFor now t).client.Dated := by
  have hparts := Pipeline.parts_submit c.retry.pipeline now none
    ⟨t.refresh.view.request.type, t.refresh.view.request.message c.retry.snapshot?,
      c.settings.operationTimeout, .plain (.read t.number)⟩
  have hpipeline : (c.readFor now t).client.retry.pipeline = (c.retry.pipeline.submit now none
      ⟨t.refresh.view.request.type, t.refresh.view.request.message c.retry.snapshot?,
        c.settings.operationTimeout, .plain (.read t.number)⟩).1 := Retry.pipeline_absorb ..
  refine ⟨hpipeline ▸ hparts.timed h.timed, fun htimeout x hx => ?_⟩
  rw [hpipeline] at hx
  rcases hparts.pending h.timed hx with hold | ⟨time, fault, s, hsubmit, -, hdeadline⟩
  · exact h.dated htimeout x hold
  · obtain ⟨-, -, rfl⟩ := Pipeline.Event.submit.inj hsubmit
    have htimeout : c.settings.operationTimeout ≠ none := htimeout
    simpa [hdeadline] using htimeout

/-- Nobody executes anything or closes the client: only who has it can do that. -/
def Move.IsServed : Move κ → Prop
  | .event _ (.execute _ _) => False
  | .event _ .close => False
  | _ => True

/-- A move with which whoever opens the client neither gets an answer nor does anything. -/
structure Plain (c : Client κ) (m : Move κ) : Prop where
  served : m.IsServed
  answer : c.answer? m = none
  look : ∀ now, m = .proceed now .opening → c.look now = c.quiet
  clock : ∀ now, m = .event now .clock →
    (c.keepTime now).client.tickOpening now = (c.keepTime now).client.quiet

theorem Alone.act_clock (h : Alone limit c) {now : Nat} (hm : Plain c (.event now .clock)) :
    c.act (.event now .clock) = c.keepTime now := by
  simp only [act, step, h.tick, Turn.andThen, hm.clock now rfl]
  simp [quiet]

theorem Alone.tends (h : Alone limit c) (hm : Plain c m) :
    Tends c (c.act m).client ∧ (c.act m).Wordless := by
  have hquiet : Tends c c.quiet.client ∧ c.quiet.Wordless := ⟨.kept (.rest c), wordless_quiet c⟩
  cases m with
  | event now e =>
    by_cases he : e.IsHeard
    · exact ⟨.kept (upkeep_heard now he), wordless_heard now he⟩
    · cases e with
      | clock =>
        rw [h.act_clock hm]
        exact ⟨.kept (upkeep_keepTime c now), wordless_keepTime c now⟩
      | execute request tag => exact hm.served.elim
      | close => exact hm.served.elim
      | _ => exact absurd trivial he
  | proceed now w =>
    cases w with
    | supervisor => exact ⟨.kept (upkeep_attend c now), wordless_attend c now⟩
    | opening =>
      rw [act, proceed, hm.look now rfl]
      exact hquiet
    | waiter i =>
      have hanswer := hm.answer
      simp only [answer?] at hanswer
      simp only [act, proceed, fetch]
      cases hended : c.ended[i]? with
      | none => exact hquiet
      | some x =>
        obtain ⟨n, hread⟩ := h.bare.ended x (List.mem_of_getElem? hended)
        obtain ⟨tag, outcome⟩ := x
        obtain rfl : tag = .read n := hread
        simp [hended] at hanswer
    | replay =>
      simp only [act, proceed]
      split
      · obtain ⟨replays, hreplayed⟩ := h.beginReplay now
        rw [hreplayed]
        exact ⟨.replayed replays rfl, wordless_quiet _⟩
      · exact hquiet
    | writer =>
      exact ⟨.kept (upkeep_signal (s := .writable none) trivial), wordless_signal c _⟩

theorem state_closed (c : Client κ) (reason : ClientError) :
    (c.signal (.closed reason)).client.state = .closed := by
  by_cases hclosed : c.state = .closed
  · exact (shut_signal c _ hclosed).1
  · exact (Retry.signal_closed (r := c.retry) hclosed reason).1

theorem state_of_obey (now : Nat) {orders : List Supervisor.Order}
    (horders : orders.any Supervisor.Order.isAttach = false)
    (h : (c.obey now none orders).client.state = .alive) : c.state = .alive := by
  induction orders generalizing c with
  | nil => exact h
  | cons order orders ih =>
    rw [List.any_cons, Bool.or_eq_false_iff] at horders
    cases order with
    | attach address rest => cases horders.1
    | close e =>
      have halive := ih (c := (c.signal (.closed e)).client) horders.2 h
      rw [state_closed] at halive
      cases halive
    | dial address => exact ih horders.2 h
    | send bytes => exact ih horders.2 h
    | hangUp => exact ih horders.2 h

theorem state_of_keepTime {now : Nat} (h : (c.keepTime now).client.state = .alive) :
    c.state = .alive := by
  have hclocked : (c.signal (.clock now)).client.retry.pipeline.cell = c.retry.pipeline.cell := by
    rw [pipeline_signal]
    exact (Pipeline.onlyEnds_tick _ now).cell
  generalize hd : (c.signal (.clock now)).client = d at hclocked
  have hticked : (d.absorb (d.retry.tick now)).client.retry.pipeline = d.retry.pipeline :=
    Retry.pipeline_expireAll ..
  subst hd
  have hstate := state_of_obey now (Supervisor.attach_tick _ now _) h
  rw [state, Pipeline.state, ← hclocked, ← hticked]
  exact hstate

end Client
end TupleClient
