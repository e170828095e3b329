import TupleClient.Proofs.Client.Supervising

/-!
Errors that may pass. In a cluster an operation that meets with one is tried again, but for the
reading of the catalog that it may need before it is tried at all: the error of that reading is the
operation's own.
-/
namespace TupleClient.Client

variable {κ : Type} {c : Client κ} {t : Turn κ}

def Entry.passing? : Entry κ → Option (κ × ClientError)
  | .did effect => effect.passing?
  | .came _ => none

/-- The operation for which the catalog was read, and why that could not be done, where the answer
to the read is fetched. -/
def refused (c : Client κ) : Move κ → List (κ × ClientError)
  | .proceed _ (.waiter i) =>
    match c.ended[i]? with
    | some (.read number, answer) =>
      refusedFor ((c.tasks.find? (·.number == number)).map Task.purpose) answer
    | _ => []
  | _ => []

def refusals (c : Client κ) : List (Move κ) → List (κ × ClientError)
  | [] => []
  | m :: ms => c.refused m ++ (c.act m).client.refusals ms

/-- In a cluster no operation of the user is tried only once, and those that have ended did not do
so with an error that may pass. Nor may the reason for a close. -/
structure Retrying (c : Client κ) : Prop where
  clustered : c.settings.cluster.isSome
  sound : Retry.Sound (·.isTransient = false) c.retry
  entered : Retry.Entered c.retry
  tried : ∀ tag, (none, .user tag) ∉ c.retry.held
  ended : ∀ tag e, (.user tag, .error e) ∈ c.ended → e.isTransient = false

def Tells (c : Client κ) (t : Turn κ) (told : List (κ × ClientError)) : Prop :=
  c.Retrying → t.client.Retrying ∧ t.effects.filterMap Effect.passing? = told

theorem Tells.andThen {f : Client κ → Turn κ} {told more : List (κ × ClientError)}
    (h : Tells c t told) (g : Tells t.client (f t.client) more) :
    Tells c (t.andThen f) (told ++ more) := by
  intro hc
  obtain ⟨hmid, hfirst⟩ := h hc
  obtain ⟨hlast, hrest⟩ := g hmid
  exact ⟨hlast, by rw [Turn.andThen, List.filterMap_append, hfirst, hrest]⟩

theorem Retrying.aside {c' : Client κ} (h : c.Retrying) (hc : Aside c c') : c'.Retrying where
  clustered := hc.settings ▸ h.clustered
  sound := (Retry.Custody.of_eq h.sound hc.pipeline hc.parked hc.closed
    (Nat.le_of_eq hc.nextEntry.symm)).sound
  entered := by
    refine ⟨?_, ?_⟩
    · simpa [Retry.held, hc.pipeline, hc.parked] using h.entered.distinct
    · simpa [Retry.held, hc.pipeline, hc.parked, hc.nextEntry] using h.entered.lt_nextEntry
  tried := by simpa [Retry.held, hc.pipeline, hc.parked] using h.tried
  ended := hc.ended ▸ h.ended

theorem Retrying.supervised (h : c.Retrying) (s : Supervisor) :
    Retrying { c with supervisor := s } := { h with }

theorem passing_absorb (c : Client κ) (step : Retry (Tag κ) × Report (Tag κ)) :
    (c.absorb step).effects.filterMap Effect.passing? = [] := by
  simp only [absorb]
  cases step.2.written <;> cases step.2.hungUp <;> rfl

/-- An event of the retries, other than an operation of the user that is tried only once. -/
theorem tells_event (e : Retry.Event (Tag κ)) (hgives : ∀ tag, (none, .user tag) ∉ c.retry.gives e)
    (hwhy : ∀ reason, e = .signal (.closed reason) → reason.isTransient = false) :
    Tells c (c.absorb (c.retry.step e)) [] := by
  intro hc
  have hstep := Retry.custody_step hc.sound hc.entered e hwhy
  have hnone (tag : κ) : (none, .user tag) ∉ c.retry.held ++ c.retry.gives e :=
    fun hmem => (List.mem_append.1 hmem).elim (hc.tried tag) (hgives tag)
  refine ⟨?_, passing_absorb ..⟩
  exact
    { clustered := hc.clustered
      sound := hstep.sound
      entered := Retry.entered_step hc.sound hc.entered e hwhy
      tried := fun tag hmem => hnone tag (hstep.accounts.subset hmem)
      ended := by
        intro tag e' hmem
        rcases List.mem_append.1 hmem with hbefore | hnew
        · exact hc.ended tag e' hbefore
        · rcases (hstep.outcomes _ hnew).resolve_right (hnone tag) with hlasting | rfl | hreason
          · exact hlasting
          · rfl
          · exact (hstep.sound.kept.closed e' hreason).1 }

theorem habit_tells : Habit (Tells (κ := κ)) where
  andThen h g := h.andThen g
  aside hc h := fun hr => h (hr.aside hc)
  words hc _ := fun hr => ⟨hr.aside hc, rfl⟩
  event he := fun hr =>
    tells_event _ (fun tag hmem => by simpa [hr.clustered] using he.tried tag hmem) he.lasting hr

theorem tells_signal (s : Signal)
    (hlasting : ∀ reason, s = .closed reason → reason.isTransient = false) :
    Tells c (c.signal s) [] :=
  tells_event (.signal s) (by simp [Retry.gives]) fun reason hs =>
    hlasting reason (by simpa using hs)

theorem tells_startLoops (generation : Nat) (mishap : Option Pipeline.Mishap) :
    Tells c (c.startLoops generation mishap) [] := by
  unfold startLoops
  split
  · exact (tells_signal _ (by simp)).andThen (f := (·.signal (.started generation .reader)))
      (tells_signal _ (by simp))
  · exact tells_signal _ (by simp)
  · exact habit_tells.quiet c

theorem tells_attach (now : Nat) (address : String) (rest : Bytes)
    (mishap : Option Pipeline.Mishap) : Tells c (c.attach now address rest mishap).1 [] := by
  intro hc
  cases hbegin : c.retry.pipeline.begin with
  | mk p generation =>
    cases generation with
    | none =>
      simp only [attach, hbegin]
      exact ⟨hc.supervised _, rfl⟩
    | some generation =>
      have hbegun := (tells_signal .begun (by simp) hc).1
      have hattached :=
        (tells_signal (.attached generation address rest mishap) (by simp) hbegun).1
      rw [← attached_eq hbegin rfl] at hattached
      simp only [attach, hbegin]
      exact tells_startLoops generation mishap (hattached.supervised _)

def Lasting (orders : List Supervisor.Order) : Prop :=
  ∀ e, .close e ∈ orders → e.isTransient = false

theorem tells_obey (now : Nat) (mishap : Option Pipeline.Mishap) {orders : List Supervisor.Order}
    (h : Lasting orders) : Tells c (c.obey now mishap orders) [] := by
  induction orders generalizing c with
  | nil => exact habit_tells.quiet c
  | cons order orders ih =>
    have hrest : Lasting orders := fun e he => h e (List.mem_cons_of_mem order he)
    have hword (effect : Effect κ) (hpassing : effect.passing? = none) :
        Tells c (Turn.andThen ⟨c, [effect]⟩ (·.obey now mishap orders)) [] := by
      have hfirst : Tells c ⟨c, [effect]⟩ [] := fun hc => ⟨hc, by simp [hpassing]⟩
      exact hfirst.andThen (f := (·.obey now mishap orders)) (ih hrest)
    cases order with
    | close e =>
      have hreason : e.isTransient = false := h e List.mem_cons_self
      have hclosed : Tells c (c.signal (.closed e)) [] := tells_signal _ (by simp [hreason])
      exact hclosed.andThen (f := (·.obey now mishap orders)) (ih hrest)
    | attach address more =>
      have hattach : Tells c ⟨(c.attach now address more mishap).1.client,
          (c.attach now address more mishap).1.effects ++
            if (c.attach now address more mishap).2.isEmpty then [] else [.hangUp]⟩ [] := by
        intro hc
        obtain ⟨hlast, htold⟩ := tells_attach now address more mishap hc
        refine ⟨hlast, ?_⟩
        rw [List.filterMap_append, htold]
        split <;> rfl
      exact hattach.andThen (f := (·.obey now mishap orders)) (ih hrest)
    | dial address => exact hword (.dial address) rfl
    | send bytes => exact hword (.send bytes) rfl
    | hangUp => exact hword .hangUp rfl

theorem lasting_heed (s : Supervisor) (m : Supervisor.Moment Addresses) : Lasting (s.heed m).2 := by
  have hheeded := Supervisor.heeded s m
  generalize s.heed m = step at hheeded
  cases hheeded with
  | rests h => rcases h with rfl | rfl <;> simp [Lasting]
  | pursues k =>
    unfold Supervisor.pursue
    split
    · simp [Lasting]
    · rename_i e hgiveUp
      have hexhausted : k.exhausted.isTransient = false := rfl
      unfold Campaign.decide at hgiveUp
      simp only [Lasting, List.mem_singleton, Supervisor.Order.close.injEq]
      grind
    · split <;> simp [Lasting]
  | shakes k address result =>
    obtain ⟨out, next | ⟨g, rest⟩ | e⟩ := result <;> cases out <;>
      simp [Supervisor.shaken, Lasting]

theorem heeds_tells : Heeds (Tells (κ := κ)) where
  habit := habit_tells
  broken _ _ _ := tells_signal _ (by simp)
  heeding _ now mishap _ _ hc := tells_obey now mishap (lasting_heed _ _) (hc.supervised _)

theorem Retrying.fetched (h : c.Retrying) (i : Nat) :
    Retrying { c with ended := c.ended.eraseIdx i } :=
  { h with ended := fun tag e hmem => h.ended tag e (List.mem_of_mem_eraseIdx hmem) }

theorem tells_fetch (now i : Nat) :
    Tells c (c.fetch now i)
      ((c.refused (.proceed now (.waiter i))).filter fun x => x.2.isTransient) := by
  intro hc
  unfold fetch
  split
  · rename_i tag outcome hended
    have hfetched := hc.fetched i
    cases tag with
    | user tag =>
      simp only [refused, hended]
      refine ⟨hfetched, ?_⟩
      cases outcome with
      | ok response => rfl
      | error e =>
        have hlasting := hc.ended tag e (List.mem_of_getElem? hended)
        simp [deliver, Effect.passing?, hlasting]
    | read number =>
      simp only [refused, hended]
      exact habit_tells.answered { c with ended := c.ended.eraseIdx i } now number outcome hfetched
    | members =>
      simp only [refused, hended]
      exact habit_tells.polled { c with ended := c.ended.eraseIdx i } now outcome hfetched
  · rename_i hnone
    simp only [refused, hnone]
    exact habit_tells.quiet c hc

theorem tells_act (m : Move κ) :
    Tells c (c.act m) ((c.refused m).filter fun x => x.2.isTransient) := by
  cases m with
  | event now e => exact heeds_tells.step c now e
  | proceed now w =>
    cases w with
    | supervisor => exact heeds_tells.attend c now
    | opening => exact habit_tells.look c now
    | waiter i => exact tells_fetch now i
    | replay =>
      simp only [act, proceed, refused]
      split
      · exact habit_tells.beginReplay c now
      · exact habit_tells.quiet c
    | writer => exact tells_signal (.writable none) (by simp)

theorem passing_did (effects : List (Effect κ)) :
    (effects.map .did : List (Entry κ)).filterMap Entry.passing? =
      effects.filterMap Effect.passing? := by
  rw [List.filterMap_map]
  rfl

theorem passing_history (h : c.Retrying) (moves : List (Move κ)) :
    (c.history moves).filterMap Entry.passing? =
      (c.refusals moves).filter fun x => x.2.isTransient := by
  induction moves generalizing c with
  | nil => rfl
  | cons m moves ih =>
    obtain ⟨hnext, htold⟩ := tells_act m h
    have hcame : m.entries.filterMap Entry.passing? = [] := by cases m <;> rfl
    rw [history, refusals, List.filterMap_append, List.filterMap_append, passing_did, htold,
      ih hnext,
      hcame, List.nil_append, List.filter_append]

theorem retrying_create (s : Settings) (k : ClusterSettings) (now : Nat) :
    Retrying (create { s with cluster := some k } now : Client κ) where
  clustered := rfl
  sound := Retry.sound_create ..
  entered := Retry.entered_create ..
  tried := nofun
  ended := by simp [create]

/-- In a cluster the operations that end with an error that may pass are those for which the catalog
had to be read and could not be, for that same reason: these, in this order, and no others. -/
theorem passing_lifetime (s : Settings) (k : ClusterSettings) (now : Nat) (moves : List (Move κ)) :
    (lifetime { s with cluster := some k } now moves).filterMap Entry.passing? =
      (refusals (start (create { s with cluster := some k } now)).client moves).filter
        fun x => x.2.isTransient := by
  obtain ⟨hstarted, htold⟩ :=
    tells_signal .supervised (by simp) (retrying_create (κ := κ) s k now)
  rw [lifetime, List.filterMap_append, passing_did, start, htold, List.nil_append]
  exact passing_history hstarted moves

/-- A server shows a catalog without any space, and refuses to show it again. An operation on a
space that has a name ends with that refusal, and not with its timeout, while the connection lives.
-/
theorem not_forall_tried_again :
    let s : Settings := { Settings.standard with cluster := some ⟨none, 0, 1⟩ }
    let refusal (sync : UInt8) : Bytes := [0xce, 0, 0, 0, 8, 0x82, 0, 0xcd, 0x80, 7, 1, sync, 0x80]
    let moves : List (Move Unit) :=
      greeted ++ settling 0 [.execute (.insert (.named "ghosts") []) ()] ++
        settling 0 [.received (refusal 3) none]
    let last := (start (create s 0)).client.after moves
    last.opening = .done ∧ last.state = .alive ∧
      (lifetime s 0 moves).filterMap Entry.passing? = [((), .server ⟨7, "server error 7"⟩)] := by
  decide +kernel

end TupleClient.Client
