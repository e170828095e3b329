import TupleClient.Proofs.Client.Turns
import TupleClient.Proofs.Pipeline.Sockets

/-!
How a client keeps up its connection: signals to the retries, and the turns of the supervisor. All
orders of the supervisor come down to these, and leave alone what the client is busy with otherwise.
-/
namespace TupleClient

namespace Retry

variable {κ : Type}

theorem catalog_entered (r : Retry κ) (s : Lifecycle.State) :
    (r.entered s).1.catalog = r.catalog := by
  cases s <;> rfl

theorem catalog_settle (r : Retry κ) (alive : Bool) (e : Entry κ) (outcome : Outcome) :
    (r.settle alive e outcome).1.catalog = r.catalog := by
  obtain ⟨last, htold⟩ | ⟨parked, deadlines, replays, hparked⟩ := settle_kept r alive e outcome
  · rw [htold]
  · rw [hparked]

theorem catalog_follow (r : Retry κ) (alive : Bool) (hs : List (Happening (Owner κ))) :
    (r.follow alive hs).1.catalog = r.catalog :=
  follow_same catalog_entered catalog_settle r alive hs

theorem catalog_absorb (r : Retry κ) (step : Pipeline (Owner κ) × Report (Owner κ)) :
    (r.absorb step).1.catalog = r.catalog :=
  catalog_follow { r with pipeline := step.1 } r.pipeline.state.isAlive step.2.happenings

theorem catalog_expire (r : Retry κ) (id : Nat) : (r.expire id).1.catalog = r.catalog := by
  unfold expire
  split <;> rfl

theorem catalog_expireAll (r : Retry κ) (ids : List Nat) :
    (r.expireAll ids).1.catalog = r.catalog := by
  induction ids generalizing r with
  | nil => rfl
  | cons id ids ih => exact (ih _).trans (catalog_expire r id)

theorem catalog_submit (r : Retry κ) (now : Nat) (fault : Option String) (e : Entry κ) :
    (r.submit now fault e).1.catalog = r.catalog := by
  rw [submit_eq]
  split
  · exact catalog_absorb ..
  · rfl

theorem catalog_submitAll (r : Retry κ) (now : Nat) (fault : Option String) (es : List (Entry κ)) :
    (r.submitAll now fault es).1.catalog = r.catalog := by
  induction es generalizing r with
  | nil => rfl
  | cons e es ih =>
    obtain ⟨deadlines, hunscheduled⟩ := unschedule_eq r e
    rw [submitAll]
    exact (ih _).trans ((catalog_submit ..).trans (by rw [hunscheduled]))

theorem catalog_replayAfter (r : Retry κ) (now : Nat) (fault : Option String)
    (result : Except ClientError Catalog.Snapshot) :
    (r.replayAfter now fault result).1.catalog =
      match result with
      | .ok s => r.catalog.map (·.install s)
      | .error _ => r.catalog := by
  cases result with
  | ok s => exact catalog_submitAll ..
  | error e =>
    rw [replayAfter]
    split <;> rfl

theorem catalog_step (r : Retry κ) (e : Event κ) :
    (r.step e).1.catalog = r.catalog ∨ ∃ s, (r.step e).1.catalog = r.catalog.map (·.install s) := by
  have hafter (r : Retry κ) (now : Nat) (fault : Option String)
      (result : Except ClientError Catalog.Snapshot) :
      (r.replayAfter now fault result).1.catalog = r.catalog ∨
        ∃ s, (r.replayAfter now fault result).1.catalog = r.catalog.map (·.install s) := by
    rw [catalog_replayAfter]
    cases result with
    | ok s => exact .inr ⟨s, rfl⟩
    | error e => exact .inl rfl
  cases e with
  | execute now fault request timeout tag => exact .inl (catalog_submit ..)
  | plain now fault request timeout tag => exact .inl (catalog_absorb ..)
  | signal s => exact .inl (catalog_absorb ..)
  | clock now => exact .inl (catalog_expireAll ..)
  | expired id => exact .inl (catalog_expire ..)
  | replay now fault refreshed =>
    simp only [step, replay]
    split
    · exact hafter { r with replays := r.replays - 1 } now fault refreshed
    · exact .inl (catalog_submitAll ..)
  | resubmit now fault => exact .inl (catalog_submitAll ..)
  | refreshed now fault result => exact hafter r now fault result

end Retry

namespace Client

variable {κ : Type} {c c' : Client κ}

def after (c : Client κ) (moves : List (Move κ)) : Client κ :=
  moves.foldl (fun c m => (c.act m).client) c

theorem after_append (c : Client κ) (moves more : List (Move κ)) :
    c.after (moves ++ more) = (c.after moves).after more := List.foldl_append

def Event.IsHeard : Event κ → Prop
  | .dialed _ => True
  | .received _ _ => True
  | .hungUp => True
  | .broken _ => True
  | _ => False

def keepTime (c : Client κ) (now : Nat) : Turn κ :=
  ((c.signal (.clock now)).andThen fun c => c.absorb (c.retry.tick now)).andThen
    fun c => c.supervised now none (c.supervisor.tick now c.state)

theorem tick_eq (c : Client κ) (now : Nat) :
    c.tick now = ((c.keepTime now).andThen (·.tickDiscovery now)).andThen (·.tickOpening now) := rfl

/-- From one client to another only what concerns the connection and the operations has changed. Of
those that have ended more may be there. -/
structure Beside (c c' : Client κ) : Prop where
  settings : c'.settings = c.settings
  opening : c'.opening = c.opening
  discovery : c'.discovery = c.discovery
  tasks : c'.tasks = c.tasks
  nextTask : c'.nextTask = c.nextTask
  catalog : c'.retry.catalog = c.retry.catalog
  ended : ∃ more, c'.ended = c.ended ++ more

theorem Beside.refl (c : Client κ) : Beside c c :=
  ⟨rfl, rfl, rfl, rfl, rfl, rfl, [], (List.append_nil _).symm⟩

theorem Beside.trans {last : Client κ} (h : Beside c c') (g : Beside c' last) : Beside c last where
  settings := g.settings.trans h.settings
  opening := g.opening.trans h.opening
  discovery := g.discovery.trans h.discovery
  tasks := g.tasks.trans h.tasks
  nextTask := g.nextTask.trans h.nextTask
  catalog := g.catalog.trans h.catalog
  ended := by
    obtain ⟨first, hfirst⟩ := h.ended
    obtain ⟨more, hmore⟩ := g.ended
    exact ⟨first ++ more, by rw [hmore, hfirst, List.append_assoc]⟩

theorem beside_absorb {step : Retry (Tag κ) × Report (Tag κ)}
    (h : step.1.catalog = c.retry.catalog) : Beside c (c.absorb step).client :=
  ⟨rfl, rfl, rfl, rfl, rfl, h, step.2.outcomes, rfl⟩

theorem pipeline_signal (c : Client κ) (s : Signal) :
    (c.signal s).client.retry.pipeline = (c.retry.pipeline.signal s).1 :=
  Retry.pipeline_absorb ..

theorem supervisor_signal (c : Client κ) (s : Signal) :
    (c.signal s).client.supervisor = c.supervisor := rfl

theorem client_andThen (t : Turn κ) (f : Client κ → Turn κ) :
    (t.andThen f).client = (f t.client).client := rfl

theorem beside_signal (s : Signal) : Beside c (c.signal s).client :=
  beside_absorb (Retry.catalog_absorb ..)

/-- The steps by which a connection is kept up, from one client to another. A connection is taken
into use all at once, or let go again. -/
inductive Upkeep : Client κ → Client κ → Prop where
  | rest (c : Client κ) : Upkeep c c
  | signal {c c' : Client κ} {s : Signal} (hs : s.IsLater) (h : Upkeep (c.signal s).client c') :
      Upkeep c c'
  | timed {c c' : Client κ} {now : Nat} (h : Upkeep (c.absorb (c.retry.tick now)).client c') :
      Upkeep c c'
  | supervisor {c c' : Client κ} (s : Supervisor) (h : Upkeep { c with supervisor := s } c') :
      Upkeep c c'
  | attached {c c' : Client κ} {p q : Pipeline (Retry.Owner (Tag κ))} {generation : Nat}
      {address : String} {rest : Bytes} {mishap : Option Pipeline.Mishap}
      (hbegin : c.retry.pipeline.begin = (p, some generation))
      (hattach : (p.attach generation address rest mishap).1 = q)
      (h : Upkeep (({ c with retry := { c.retry with pipeline := q } } : Client κ).startLoops
        generation mishap).client c') :
      Upkeep c c'

theorem Upkeep.trans {last : Client κ} (h : Upkeep c c') (g : Upkeep c' last) : Upkeep c last := by
  induction h with
  | rest c => exact g
  | signal hs _ ih => exact .signal hs (ih g)
  | timed _ ih => exact .timed (ih g)
  | supervisor s _ ih => exact .supervisor s (ih g)
  | attached hbegin hattach _ ih => exact .attached hbegin hattach (ih g)

/-- A socket is taken by two signals that say nothing. -/
theorem attached_eq {p q : Pipeline (Retry.Owner (Tag κ))} {generation : Nat} {address : String}
    {rest : Bytes} {mishap : Option Pipeline.Mishap}
    (hbegin : c.retry.pipeline.begin = (p, some generation))
    (hattach : (p.attach generation address rest mishap).1 = q) :
    ({ c with retry := { c.retry with pipeline := q } } : Client κ) =
      ((c.signal .begun).client.signal (.attached generation address rest mishap)).client := by
  have hsilent (c : Client κ) {s : Signal} {p : Pipeline (Retry.Owner (Tag κ))}
      (hp : c.retry.pipeline.signal s = (p, .silent)) :
      (c.signal s).client = { c with retry := { c.retry with pipeline := p } } := by
    simp [signal, absorb, Retry.signal, Retry.absorb, hp, Retry.follow, Report.silent,
      Report.outcomes]
  rw [hsilent c (p := p) (by simp [Pipeline.signal, hbegin]),
    hsilent _ (p := q) (by simp [Pipeline.signal, hattach])]

theorem carries_startLoops {R : Client κ → Client κ → Prop} (hrest : ∀ c, R c c)
    (htrans : ∀ first next last, R first next → R next last → R first last)
    (hsignal : ∀ c s, R c (c.signal s).client) (c : Client κ) (generation : Nat)
    (mishap : Option Pipeline.Mishap) : R c (c.startLoops generation mishap).client := by
  unfold startLoops
  split
  · rw [client_andThen]
    exact htrans _ _ _ (hsignal c _) (hsignal _ _)
  · exact hsignal c _
  · exact hrest c

/-- A connection comes into use by signals alone, so what these carry from one client to the next,
the passing of time and a new supervisor too, is carried all the way. -/
theorem Upkeep.carries {R : Client κ → Client κ → Prop} (h : Upkeep c c') (hrest : ∀ c, R c c)
    (htrans : ∀ first next last, R first next → R next last → R first last)
    (hsignal : ∀ c s, R c (c.signal s).client)
    (htimed : ∀ c now, R c (c.absorb (c.retry.tick now)).client)
    (hsupervisor : ∀ c s, R c { c with supervisor := s }) : R c c' := by
  induction h with
  | rest c => exact hrest c
  | signal _ _ ih => exact htrans _ _ _ (hsignal _ _) ih
  | timed _ ih => exact htrans _ _ _ (htimed _ _) ih
  | supervisor s _ ih => exact htrans _ _ _ (hsupervisor _ s) ih
  | @attached c c' p q generation address rest mishap hbegin hattach _ ih =>
    have hsame := attached_eq hbegin hattach
    generalize ({ c with retry := { c.retry with pipeline := q } } : Client κ) = d at hsame ih
    subst hsame
    have hattached :=
      htrans _ _ _ (hsignal c .begun) (hsignal _ (.attached generation address rest mishap))
    exact htrans _ _ _ (htrans _ _ _ hattached
      (carries_startLoops hrest htrans hsignal _ generation mishap)) ih

theorem upkeep_signal {s : Signal} (hs : s.IsLater) : Upkeep c (c.signal s).client :=
  .signal hs (.rest _)

theorem upkeep_attach (now : Nat) (address : String) (rest : Bytes)
    (mishap : Option Pipeline.Mishap) : Upkeep c (c.attach now address rest mishap).1.client := by
  cases hbegin : c.retry.pipeline.begin with
  | mk p generation =>
    cases generation with
    | none =>
      simp only [attach, hbegin]
      exact .supervisor _ (.rest _)
    | some generation =>
      simp only [attach, hbegin]
      exact .supervisor (c.supervisor.attached now (p.attach generation address rest mishap).2).1
        (.attached hbegin rfl (.rest _))

theorem upkeep_obey (now : Nat) (mishap : Option Pipeline.Mishap)
    (orders : List Supervisor.Order) : Upkeep c (c.obey now mishap orders).client := by
  induction orders generalizing c with
  | nil => exact .rest c
  | cons order orders ih =>
    cases order with
    | close e => exact (upkeep_signal (s := .closed e) trivial).trans ih
    | attach address more => exact (upkeep_attach now address more mishap).trans ih
    | dial address => exact ih
    | send bytes => exact ih
    | hangUp => exact ih

theorem upkeep_supervised (now : Nat) (mishap : Option Pipeline.Mishap)
    (step : Supervisor × List Supervisor.Order) :
    Upkeep c (c.supervised now mishap step).client :=
  .supervisor step.1 (upkeep_obey now mishap step.2)

theorem upkeep_heard (now : Nat) {e : Event κ} (he : e.IsHeard) :
    Upkeep c (c.step now e).client := by
  cases e with
  | dialed result => exact upkeep_supervised now none _
  | received bytes mishap =>
    rw [step]
    split
    · exact upkeep_supervised now mishap _
    · exact upkeep_signal (s := .received bytes) trivial
  | hungUp =>
    rw [step]
    split
    · exact upkeep_supervised now none _
    · exact upkeep_signal (s := .hungUp) trivial
  | broken reason =>
    rw [step]
    split
    · exact upkeep_supervised now none _
    · split
      · exact upkeep_signal (s := .broken _ _) trivial
      · exact .rest c
  | clock => exact he.elim
  | execute request tag => exact he.elim
  | close => exact he.elim

theorem upkeep_keepTime (c : Client κ) (now : Nat) : Upkeep c (c.keepTime now).client :=
  .signal (s := .clock now) trivial (.timed (upkeep_supervised now none _))

theorem upkeep_attend (c : Client κ) (now : Nat) : Upkeep c (c.attend now).client := by
  unfold attend
  split
  · split
    · exact .signal (s := .seeking) trivial (upkeep_supervised now none _)
    · exact .rest c
  · exact upkeep_supervised now none _
  · exact .rest c

def Turn.Wordless (t : Turn κ) : Prop := ∀ e ∈ t.effects, ¬ e.IsWord

theorem Turn.Wordless.andThen {t : Turn κ} {f : Client κ → Turn κ} (h : t.Wordless)
    (g : (f t.client).Wordless) : (t.andThen f).Wordless :=
  List.forall_mem_append.2 ⟨h, g⟩

theorem wordless_quiet (c : Client κ) : c.quiet.Wordless := List.forall_mem_nil _

theorem wordless_absorb (c : Client κ) (step : Retry (Tag κ) × Report (Tag κ)) :
    (c.absorb step).Wordless := by
  refine List.forall_mem_append.2 ⟨?_, ?_⟩
  · split
    · exact List.forall_mem_nil _
    · exact List.forall_mem_singleton.2 id
  · split
    · exact List.forall_mem_singleton.2 id
    · exact List.forall_mem_nil _

theorem wordless_signal (c : Client κ) (s : Signal) : (c.signal s).Wordless := wordless_absorb c _

theorem wordless_startLoops (c : Client κ) (generation : Nat) (mishap : Option Pipeline.Mishap) :
    (c.startLoops generation mishap).Wordless := by
  unfold startLoops
  split
  · exact (wordless_signal c _).andThen (f := (·.signal _)) (wordless_signal _ _)
  · exact wordless_signal c _
  · exact wordless_quiet c

theorem wordless_attach (now : Nat) (address : String) (rest : Bytes)
    (mishap : Option Pipeline.Mishap) : (c.attach now address rest mishap).1.Wordless := by
  unfold attach
  split
  · exact wordless_quiet _
  · exact wordless_startLoops _ _ mishap

theorem wordless_obey (now : Nat) (mishap : Option Pipeline.Mishap)
    (orders : List Supervisor.Order) : (c.obey now mishap orders).Wordless := by
  induction orders generalizing c with
  | nil => exact wordless_quiet c
  | cons order orders ih =>
    have hline (c : Client κ) {effects : List (Effect κ)} (h : ∀ e ∈ effects, ¬ e.IsWord) :
        (Turn.andThen ⟨c, effects⟩ (·.obey now mishap orders)).Wordless :=
      Turn.Wordless.andThen (t := ⟨c, effects⟩) (f := (·.obey now mishap orders)) h ih
    cases order with
    | close e => exact (wordless_signal c _).andThen (f := (·.obey now mishap orders)) ih
    | attach address more =>
      have hhangUps (given : List Supervisor.Order) :
          ∀ e ∈ (if given.isEmpty then [] else [.hangUp] : List (Effect κ)), ¬ e.IsWord := by
        split
        · exact List.forall_mem_nil _
        · exact List.forall_mem_singleton.2 id
      exact hline _ (List.forall_mem_append.2 ⟨wordless_attach now address more mishap, hhangUps _⟩)
    | dial address => exact hline c (List.forall_mem_singleton.2 id)
    | send bytes => exact hline c (List.forall_mem_singleton.2 id)
    | hangUp => exact hline c (List.forall_mem_singleton.2 id)

theorem wordless_supervised (now : Nat) (mishap : Option Pipeline.Mishap)
    (step : Supervisor × List Supervisor.Order) : (c.supervised now mishap step).Wordless :=
  wordless_obey now mishap step.2

theorem wordless_heard (now : Nat) {e : Event κ} (he : e.IsHeard) : (c.step now e).Wordless := by
  cases e with
  | dialed result => exact wordless_supervised now none _
  | received bytes mishap =>
    rw [step]
    split
    · exact wordless_supervised now mishap _
    · exact wordless_signal c _
  | hungUp =>
    rw [step]
    split
    · exact wordless_supervised now none _
    · exact wordless_signal c _
  | broken reason =>
    rw [step]
    split
    · exact wordless_supervised now none _
    · split
      · exact wordless_signal c _
      · exact wordless_quiet c
  | clock => exact he.elim
  | execute request tag => exact he.elim
  | close => exact he.elim

theorem wordless_keepTime (c : Client κ) (now : Nat) : (c.keepTime now).Wordless :=
  ((wordless_signal c _).andThen (f := fun c => c.absorb (c.retry.tick now))
    (wordless_absorb _ _)).andThen
      (f := fun c => c.supervised now none (c.supervisor.tick now c.state))
    (wordless_supervised now none _)

theorem wordless_attend (c : Client κ) (now : Nat) : (c.attend now).Wordless := by
  unfold attend
  split
  · split
    · exact (wordless_signal c _).andThen
        (f := fun c => c.supervised now none (c.supervisor.begin now c.state))
        (wordless_supervised now none _)
    · exact wordless_quiet c
  · exact wordless_supervised now none _
  · exact wordless_quiet c

theorem Upkeep.beside (h : Upkeep c c') : Beside c c' := by
  refine h.carries Beside.refl (fun _ _ _ => Beside.trans) (fun _ => beside_signal)
    (fun c now => ?_) (fun c s => ⟨rfl, rfl, rfl, rfl, rfl, rfl, [], (List.append_nil _).symm⟩)
  have hcatalog : (c.retry.tick now).1.catalog = c.retry.catalog := Retry.catalog_expireAll ..
  exact beside_absorb hcatalog

/-- What holds of all that a client does by itself, while it keeps its connection up, and where an
outcome is fetched, holds of each of its moves. -/
theorem Habit.turn {P : Client κ → Turn κ → Prop} (h : Habit fun c t _ => P c t)
    (hheard : ∀ (c : Client κ) now e, e.IsHeard → P c (c.step now e))
    (hkept : ∀ (c : Client κ) now, P c (c.keepTime now))
    (hattended : ∀ (c : Client κ) now, P c (c.attend now))
    (hfetched : ∀ (c : Client κ) i t, P { c with ended := c.ended.eraseIdx i } t → P c t)
    (c : Client κ) (m : Move κ) : P c (c.act m) := by
  have hthen {c : Client κ} {t : Turn κ} {f : Client κ → Turn κ} (ht : P c t)
      (hf : P t.client (f t.client)) : P c (t.andThen f) := @Habit.andThen _ _ h c t f [] [] ht hf
  cases m with
  | event now e =>
    by_cases he : e.IsHeard
    · exact hheard c now e he
    · cases e with
      | clock =>
        exact hthen (f := (·.tickOpening now)) (hthen (f := (·.tickDiscovery now)) (hkept c now)
          (h.tickDiscovery _ now)) (h.tickOpening _ now)
      | execute request tag => exact h.execute c now request tag
      | close => exact h.shut c rfl
      | _ => exact absurd trivial he
  | proceed now w =>
    cases w with
    | supervisor => exact hattended c now
    | opening => exact h.look c now
    | waiter i =>
      simp only [Client.act, proceed, fetch]
      split
      · rename_i tag outcome _
        refine hfetched c i _ ?_
        cases tag with
        | user tag => exact h.words (.of_eq (by rfl)) (by simp [Effect.IsWord])
        | read number => exact h.answered _ now number outcome
        | members => exact h.polled _ now outcome
      · exact h.quiet c
    | replay =>
      simp only [Client.act, proceed]
      split
      · exact h.beginReplay c now
      · exact h.quiet c
    | writer => exact h.signal c (.writable none) id (by simp)

theorem Habit.act {R : Client κ → Client κ → Prop} (h : Habit fun c t _ => R c t.client)
    (hupkeep : ∀ c c' : Client κ, Upkeep c c' → R c c')
    (hfetched : ∀ (c c' : Client κ) i, R { c with ended := c.ended.eraseIdx i } c' → R c c')
    (c : Client κ) (m : Move κ) : R c (c.act m).client :=
  h.turn (fun _ now _ he => hupkeep _ _ (upkeep_heard now he))
    (fun c now => hupkeep _ _ (upkeep_keepTime c now))
    (fun c now => hupkeep _ _ (upkeep_attend c now)) (fun c i t => hfetched c t.client i) c m

theorem habit_settings :
    Habit fun (c : Client κ) t _ => t.client.settings = c.settings where
  andThen h g := g.trans h
  aside hc h := h.trans hc.settings
  words hc _ := hc.settings
  event _ := rfl

theorem settings_after (c : Client κ) (moves : List (Move κ)) :
    (c.after moves).settings = c.settings := by
  induction moves generalizing c with
  | nil => rfl
  | cons m moves ih =>
    exact (ih _).trans (habit_settings.act (R := fun c c' => c'.settings = c.settings)
      (fun _ _ h => h.beside.settings) (fun _ _ _ h => h) c m)

/-- The socket of a client is that of the present connection, which is alive. -/
def InUse (c : Client κ) : Prop := c.retry.pipeline.InUse

theorem InUse.step (h : c.InUse) (e : Retry.Event (Tag κ))
    (he : ∀ generation address rest mishap,
      e ≠ .signal (.attached generation address rest mishap)) :
    (c.absorb (c.retry.step e)).client.InUse := by
  by_cases hbegun : e = .signal .begun
  · subst hbegun
    -- A connection gets its number only while there is no socket.
    have hpipeline : (c.absorb (c.retry.step (.signal .begun))).client.retry.pipeline =
        c.retry.pipeline.begin.1 := Retry.pipeline_absorb ..
    intro s hs
    rw [hpipeline] at hs ⊢
    obtain ⟨hgeneration, halive⟩ := h s hs
    have hcell : c.retry.pipeline.cell.begin = (c.retry.pipeline.cell, none) :=
      if_neg (by rw [show c.retry.pipeline.cell.state = .alive from halive]; simp)
    simpa [Pipeline.begin, hcell, Pipeline.state] using ⟨hgeneration, halive⟩
  · refine (Retry.stays_step c.retry e ?_).inUse h
    rintro s rfl
    cases s with
    | begun => exact hbegun rfl
    | attached generation address rest mishap => exact he _ _ _ _ rfl
    | _ => trivial

theorem InUse.signal (h : c.InUse) {s : Signal}
    (hs : ∀ generation address rest mishap, s ≠ .attached generation address rest mishap) :
    (c.signal s).client.InUse :=
  h.step (.signal s) fun generation address rest mishap hsame =>
    hs generation address rest mishap (by simpa using hsame)

/-- A connection that is taken into use is alive or lost when both its loops run. After a mishap
there is none. -/
theorem InUse.startLoops (h : c.InUse) {p q : Pipeline (Retry.Owner (Tag κ))} {generation : Nat}
    {address : String} {rest : Bytes} {mishap : Option Pipeline.Mishap}
    (hbegin : c.retry.pipeline.begin = (p, some generation))
    (hattach : (p.attach generation address rest mishap).1 = q) :
    (Client.startLoops { c with retry := { c.retry with pipeline := q } } generation
      mishap).client.InUse := by
  obtain ⟨hconnecting, hnumbered⟩ := Pipeline.begin_eq_some hbegin
  have hnone : c.retry.pipeline.socket = none :=
    Option.eq_none_iff_forall_ne_some.2 fun s hs => by
      cases (h s hs).2.symm.trans hconnecting
  cases mishap with
  | none =>
    rw [Pipeline.attach_of_begin hbegin address rest, hnumbered] at hattach
    subst hattach
    have hstarted := Pipeline.inUse_started (p := { c.retry.pipeline with
      cell := { c.retry.pipeline.cell with generation := generation }
      outbox := c.retry.pipeline.outbox.opened
      socket := some ⟨generation, address, rest, false⟩ }) rfl hconnecting rfl
    simp only [Client.startLoops, Turn.andThen]
    rwa [InUse, pipeline_signal, pipeline_signal]
  | some mishap =>
    obtain ⟨-, hgone, -⟩ := Pipeline.detached_of_begin hbegin hnone address rest mishap
    rw [hattach] at hgone
    have hdetached : InUse { c with retry := { c.retry with pipeline := q } } :=
      fun s hs => by cases hgone.symm.trans hs
    unfold Client.startLoops
    split
    · rename_i hsome
      cases hsome
    · exact hdetached.signal nofun
    · exact hdetached

theorem Upkeep.inUse (h : Upkeep c c') (hc : c.InUse) : c'.InUse := by
  induction h with
  | rest c => exact hc
  | @signal c c' s hs _ ih =>
    refine ih (hc.signal ?_)
    rintro generation address rest mishap rfl
    exact hs
  | @timed c c' now _ ih => exact ih (hc.step (.clock now) (by simp))
  | supervisor s _ ih => exact ih hc
  | attached hbegin hattach _ ih => exact ih (hc.startLoops hbegin hattach)

theorem habit_inUse : Habit fun (c : Client κ) t _ => c.InUse → t.client.InUse where
  andThen h g := g ∘ h
  aside hc h := fun hr => h (by rwa [InUse, hc.pipeline])
  words hc _ := fun hr => by rwa [InUse, hc.pipeline]
  event he := fun hc => hc.step _ fun _ _ _ _ hattached => by
    subst hattached
    exact he.inner trivial

theorem inUse_act (h : c.InUse) (m : Move κ) : (c.act m).client.InUse :=
  habit_inUse.act (fun _ _ h hc => h.inUse hc) (fun _ _ _ h hc => h hc) c m h

theorem inUse_after (s : Settings) (now : Nat) (moves : List (Move κ)) :
    ((start (create s now)).client.after moves).InUse := by
  have hstarted : (start (create s now) : Turn κ).client.InUse :=
    InUse.step (c := create s now) nofun (.signal .supervised) (by simp)
  generalize (start (create s now)).client = c at hstarted
  induction moves generalizing c with
  | nil => exact hstarted
  | cons m moves ih => exact ih _ (inUse_act hstarted m)

section Sample

def clustered : Settings := { Settings.standard with cluster := some ⟨some "members", 200, 1⟩ }

def settling {κ : Type} (now : Nat) (events : List (Event κ)) : List (Move κ) :=
  events.map (.event now) ++
    [.supervisor, .opening, .opening, .waiter 0, .replay, .writer].map (.proceed now)

def hello : Bytes :=
  Bytes.ofText "Tarantool" ++ List.replicate 55 0x20 ++ List.replicate 44 0x41 ++
    List.replicate 20 0x20

def noRows (sync : UInt8) : Bytes :=
  [0xce, 0, 0, 0, 10, 0x83, 0, 0, 1, sync, 5, 1, 0x81, 0x30, 0x90]

/-- A connection is made, and the catalog is read over it. -/
def greeted {κ : Type} : List (Move κ) :=
  settling 0 [] ++ settling 0 [.dialed (.ok ()), .received hello none] ++
    settling 0 [.received (noRows 1) none] ++ settling 0 [.received (noRows 2) none]

end Sample

end Client
end TupleClient
