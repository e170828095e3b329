import TupleClient.Proofs.Client.Supervising

/-!
No request goes over a line before the server has accepted the login. The pipeline has a socket only
after a handshake over it that ended well, and while a handshake is under way it has none.
-/
namespace TupleClient.Client

variable {κ : Type} {credentials : Credentials} {limit : Nat} {c : Client κ} {l : Line} {t : Turn κ}

/-- A login was sent for the greeting that came, and the reply to it was a success. -/
def Accepted (credentials : Credentials) (limit : Nat) (l : Line) : Prop :=
  ∃ g frame more m rest, Handshake.Greets l.input g ∧
    Frame.encode (Handshake.login credentials g) = .ok frame ∧ l.sent = frame ++ more ∧
    Frame.receive limit (l.input.drop greetingLength) = .message m rest ∧ m.sync?.isSome ∧
    m.code? = some 0

structure Secured (credentials : Credentials) (limit : Nat) (c : Client κ) (l : Line) : Prop where
  known : c.supervisor.settings.credentials = some credentials
  limited : c.supervisor.settings.maxFrame = limit
  socket : c.retry.pipeline.socket ≠ none → l.reach = .up ∧ Accepted credentials limit l
  busy : c.supervisor.phase ≠ .idle → c.retry.pipeline.socket = none
  dialing : ∀ k a, c.supervisor.phase = .dialing k a → l = ⟨.calling, [], []⟩
  shaking : ∀ k a h till, c.supervisor.phase = .shaking k a h till →
    l.reach = .up ∧ Handshake.Shaking credentials limit h l.input l.sent

/-- A turn of a client keeps to the line, and sends nothing that may not be sent. -/
def Keeps (credentials : Credentials) (limit : Nat) (c : Client κ) (t : Turn κ) : Prop :=
  ∀ l, Secured credentials limit c l →
    Secured credentials limit t.client (l.after (t.effects.map .did : List (Entry κ))) ∧
      Proper credentials limit l (t.effects.map .did : List (Entry κ))

theorem Keeps.andThen {f : Client κ → Turn κ} (h : Keeps credentials limit c t)
    (g : Keeps credentials limit t.client (f t.client)) :
    Keeps credentials limit c (t.andThen f) := by
  intro l hl
  obtain ⟨hmid, hfirst⟩ := h l hl
  obtain ⟨hlast, hrest⟩ := g _ hmid
  rw [Turn.andThen, List.map_append, Line.after_append]
  exact ⟨hlast, hfirst.append hrest⟩

theorem keeps_quiet (c : Client κ) : Keeps credentials limit c c.quiet :=
  fun _ hl => ⟨hl, proper_nil⟩

theorem after_words (credentials : Credentials) (limit : Nat) {effects : List (Effect κ)}
    (h : ∀ e ∈ effects, e.IsWord) (l : Line) :
    l.after (effects.map .did : List (Entry κ)) = l ∧
      Proper credentials limit l (effects.map .did : List (Entry κ)) := by
  induction effects with
  | nil => exact ⟨rfl, proper_nil⟩
  | cons e es ih =>
    obtain ⟨he, hes⟩ := List.forall_mem_cons.1 h
    obtain ⟨hafter, hproper⟩ := ih hes
    have hnext : l.next (.did e : Entry κ) = l := by
      cases e <;> first | rfl | exact he.elim
    have hfirst : Proper credentials limit l [(.did e : Entry κ)] := by
      refine proper_single ?_
      rintro bytes ⟨⟩
      exact he.elim
    refine ⟨?_, ?_⟩
    · simpa [Line.after, hnext] using hafter
    · have hrest : Proper credentials limit (l.after [.did e]) (es.map .did : List (Entry κ)) := by
        simpa [Line.after, hnext] using hproper
      simpa using hfirst.append hrest

theorem Secured.aside {c' : Client κ} (h : Secured credentials limit c l) (hc : Aside c c') :
    Secured credentials limit c' l where
  known := hc.reconnect ▸ h.known
  limited := hc.reconnect ▸ h.limited
  socket := hc.pipeline ▸ h.socket
  busy := by simpa [hc.phase, hc.pipeline] using h.busy
  dialing := hc.phase ▸ h.dialing
  shaking := hc.phase ▸ h.shaking

theorem keeps_words {c' : Client κ} {effects : List (Effect κ)} (hc : Aside c c')
    (heffects : ∀ e ∈ effects, e.IsWord) : Keeps credentials limit c ⟨c', effects⟩ := by
  intro l hl
  obtain ⟨hafter, hproper⟩ := after_words credentials limit heffects l
  rw [hafter]
  exact ⟨hl.aside hc, hproper⟩

theorem Accepted.send (h : Accepted credentials limit l) (bytes : Bytes) (reach : Reach) :
    Accepted credentials limit ⟨reach, l.input, l.sent ++ bytes⟩ := by
  obtain ⟨g, frame, more, m, rest, hg, hframe, hsent, hreply⟩ := h
  exact ⟨g, frame, more ++ bytes, m, rest, hg, hframe, by simp [hsent], hreply⟩

theorem login_ne_nil {g : Greeting} {frame : Bytes}
    (h : Frame.encode (Handshake.login credentials g) = .ok frame) : frame ≠ [] :=
  Handshake.authFrame_ne_nil (Handshake.authFrame_eq_ok_iff.2 h)

theorem Accepted.admitted (h : Accepted credentials limit l) (hup : l.reach = .up) (bytes : Bytes) :
    Admitted credentials limit l bytes where
  up := hup
  login hnone := by
    obtain ⟨g, frame, more, m, rest, hg, hframe, hsent, hreply⟩ := h
    have hframe' := login_ne_nil hframe
    simp [hnone, hframe'] at hsent
  later _ := h

theorem Secured.absorb_unconnected {step : Retry (Tag κ) × Report (Tag κ)}
    (hl : Secured credentials limit c l) (h : Loses c.retry.pipeline step.1.pipeline step.2)
    (hnone : c.retry.pipeline.socket = none) :
    Secured credentials limit (c.absorb step).client l := by
  have hsocket := (h.quiet hnone).1
  exact
    { known := hl.known
      limited := hl.limited
      socket := fun hsome => absurd hsocket hsome
      busy := fun _ => hsocket
      dialing := hl.dialing
      shaking := hl.shaking }

theorem Secured.idle (hl : Secured credentials limit c l) (hsome : c.retry.pipeline.socket ≠ none) :
    c.supervisor.phase = .idle := by
  by_contra hbusy
  exact hsome (hl.busy hbusy)

/-- Where there is a socket the supervisor is at rest, and what is written goes behind the login. -/
theorem Secured.absorb_connected {step : Retry (Tag κ) × Report (Tag κ)}
    (hl : Secured credentials limit c l) (h : Loses c.retry.pipeline step.1.pipeline step.2)
    (hconnected : c.retry.pipeline.socket ≠ none) :
    Secured credentials limit (c.absorb step).client
      ⟨if step.2.hungUp then .away else .up, l.input, l.sent ++ step.2.written⟩ := by
  obtain ⟨-, haccepted⟩ := hl.socket hconnected
  have hidle := hl.idle hconnected
  exact
    { known := hl.known
      limited := hl.limited
      socket := by
        intro hsome
        have hkept : step.2.hungUp = false := by
          by_contra hlet
          exact hsome (h.letGo (by simpa using hlet))
        simpa [hkept] using haccepted.send step.2.written .up
      busy := fun hbusy => absurd hidle hbusy
      dialing := by
        intro k a hphase
        exact absurd (hidle.symm.trans hphase) (by simp)
      shaking := by
        intro k a h till hphase
        exact absurd (hidle.symm.trans hphase) (by simp) }

theorem after_absorb (hup : l.reach = .up) (step : Retry (Tag κ) × Report (Tag κ)) :
    l.after ((c.absorb step).effects.map .did : List (Entry κ)) =
      ⟨if step.2.hungUp then .away else .up, l.input, l.sent ++ step.2.written⟩ := by
  cases hwritten : step.2.written <;> cases hhungUp : step.2.hungUp <;>
    simp [absorb, hwritten, hhungUp, Line.after, Line.next, ← hup]

theorem proper_absorb (hup : l.reach = .up) (h : Accepted credentials limit l)
    (step : Retry (Tag κ) × Report (Tag κ)) :
    Proper credentials limit l ((c.absorb step).effects.map .did : List (Entry κ)) := by
  have hsend : Proper credentials limit l
      ((if step.2.written.isEmpty then [] else [.send step.2.written]).map .did :
        List (Entry κ)) := by
    split
    · exact proper_nil
    · exact proper_send (h.admitted hup _)
  have hhang (m : Line) : Proper credentials limit m
      ((if step.2.hungUp then [.hangUp] else []).map .did : List (Entry κ)) := by
    split
    · exact proper_single (by simp)
    · exact proper_nil
  rw [absorb, List.map_append]
  exact hsend.append (hhang _)

theorem keeps_absorb {step : Retry (Tag κ) × Report (Tag κ)}
    (h : Loses c.retry.pipeline step.1.pipeline step.2) :
    Keeps credentials limit c (c.absorb step) := by
  intro l hl
  by_cases hnone : c.retry.pipeline.socket = none
  · obtain ⟨-, hwritten, hhungUp, -⟩ := h.quiet hnone
    have heffects : (c.absorb step).effects = [] := by simp [absorb, hwritten, hhungUp]
    rw [heffects]
    exact ⟨hl.absorb_unconnected h hnone, proper_nil⟩
  · obtain ⟨hup, haccepted⟩ := hl.socket hnone
    rw [after_absorb hup]
    exact ⟨hl.absorb_connected h hnone, proper_absorb hup haccepted step⟩

theorem keeps_signal {s : Signal} (hs : ¬ (Pipeline.Event.signal s :
    Pipeline.Event (Retry.Owner (Tag κ))).IsNew) : Keeps credentials limit c (c.signal s) :=
  keeps_absorb (Retry.loses_signal hs)

theorem Secured.away {d : Client κ} (h : Secured credentials limit c l) (m : Line)
    (hsettings : d.supervisor.settings = c.supervisor.settings)
    (hsocket : d.retry.pipeline.socket = none)
    (hdialing : ∀ k a, d.supervisor.phase = .dialing k a → m = ⟨.calling, [], []⟩)
    (hshaking : ∀ k a h till, d.supervisor.phase = .shaking k a h till →
      m.reach = .up ∧ Handshake.Shaking credentials limit h m.input m.sent) :
    Secured credentials limit d m where
  known := hsettings ▸ h.known
  limited := hsettings ▸ h.limited
  socket hsome := absurd hsocket hsome
  busy _ := hsocket
  dialing := hdialing
  shaking := hshaking

theorem Secured.stopped (h : Secured credentials limit c l) (m : Line)
    (hsocket : c.retry.pipeline.socket = none) :
    Secured credentials limit { c with supervisor := c.supervisor.inPhase .stopped } m :=
  h.away m rfl hsocket (by simp [Supervisor.inPhase]) (by simp [Supervisor.inPhase])

theorem Secured.paused (h : Secured credentials limit c l) (m : Line)
    (hsocket : c.retry.pipeline.socket = none) (now : Nat) (k : Campaign) (e : ClientError) :
    Secured credentials limit { c with supervisor := c.supervisor.pause now k e } m :=
  h.away m rfl hsocket (by simp [Supervisor.pause, Supervisor.inPhase])
    (by simp [Supervisor.pause, Supervisor.inPhase])

theorem keeps_pursue (hsocket : c.retry.pipeline.socket = none) (now : Nat)
    (state : Lifecycle.State) (k : Campaign) :
    Keeps credentials limit c (c.supervised now none (c.supervisor.pursue now state k)) := by
  have hstopped : Keeps credentials limit c
      ⟨{ c with supervisor := c.supervisor.inPhase .stopped }, []⟩ :=
    fun l hl => ⟨hl.stopped l hsocket, proper_nil⟩
  unfold Supervisor.pursue
  split
  · exact hstopped
  · rename_i e _
    have hclosed : Keeps credentials limit { c with supervisor := c.supervisor.inPhase .stopped }
        (signal { c with supervisor := c.supervisor.inPhase .stopped } (.closed e)) :=
      keeps_signal id
    exact hstopped.andThen (f := (·.obey now none [.close e])) (hclosed.andThen (keeps_quiet _))
  · split
    · rename_i addresses address _
      intro l hl
      refine ⟨?_, proper_single (by simp)⟩
      exact hl.away (d := { c with supervisor :=
        { c.supervisor with addresses := addresses, phase := .dialing k address } })
        ⟨.calling, [], []⟩ rfl hsocket (by simp) (by simp)
    · rename_i addresses _
      intro l hl
      refine ⟨?_, proper_nil⟩
      let paused := { c.supervisor with addresses := addresses }.pause now k
        (.connection .notConnected)
      exact hl.away (d := { c with supervisor := paused }) l rfl hsocket
        (by simp [paused, Supervisor.pause, Supervisor.inPhase])
        (by simp [paused, Supervisor.pause, Supervisor.inPhase])

theorem keeps_begin (hsocket : c.retry.pipeline.socket = none) (now : Nat)
    (state : Lifecycle.State) :
    Keeps credentials limit c (c.supervised now none (c.supervisor.begin now state)) := by
  unfold Supervisor.begin
  split
  · exact keeps_pursue hsocket now state .start
  · exact keeps_quiet c

theorem secured_attached {p : Pipeline (Retry.Owner (Tag κ))} {m : Line}
    (h : Secured credentials limit c l) (hup : m.reach = .up)
    (haccepted : Accepted credentials limit m) :
    Secured credentials limit
      { c with
        retry := { c.retry with pipeline := p }
        supervisor := c.supervisor.inPhase .idle } m where
  known := h.known
  limited := h.limited
  socket _ := ⟨hup, haccepted⟩
  busy hbusy := absurd rfl hbusy
  dialing := by simp [Supervisor.inPhase]
  shaking := by simp [Supervisor.inPhase]

theorem keeps_startLoops (c : Client κ) (generation : Nat) (mishap : Option Pipeline.Mishap) :
    Keeps credentials limit c (c.startLoops generation mishap) := by
  unfold startLoops
  split
  · exact (keeps_signal id).andThen (keeps_signal id)
  · exact keeps_signal id
  · exact keeps_quiet c

theorem proper_hangUp (l : Line) :
    Proper credentials limit l ([.hangUp].map .did : List (Entry κ)) :=
  proper_single (by simp)

theorem keeps_attach (h : Secured credentials limit c l) (hsocket : c.retry.pipeline.socket = none)
    {m : Line} (hup : m.reach = .up) (haccepted : Accepted credentials limit m) (now : Nat)
    (mishap : Option Pipeline.Mishap) (k : Campaign) (a address : String) (rest : Bytes) :
    let t := obey { c with supervisor := c.supervisor.inPhase (.dialing k a) } now mishap
      [.attach address rest]
    Secured credentials limit t.client (m.after (t.effects.map .did : List (Entry κ))) ∧
      Proper credentials limit m (t.effects.map .did : List (Entry κ)) := by
  intro t
  cases hbegin : c.retry.pipeline.begin with
  | mk p generation =>
    cases generation with
    | none =>
      let e : ClientError := .connection (.closed "closed while connecting")
      have ht : t = ⟨{ c with supervisor := c.supervisor.pause now k e }, [.hangUp]⟩ := by
        simp [t, e, obey, attach, hbegin, Supervisor.attached, Supervisor.inPhase,
          Supervisor.pause, quiet, Turn.andThen]
      rw [ht]
      exact ⟨h.paused _ hsocket now k e, proper_hangUp m⟩
    | some generation =>
      cases mishap with
      | none =>
        let d : Client κ :=
          { c with
            retry := { c.retry with
              pipeline := { p with
                outbox := p.outbox.opened, socket := some ⟨generation, address, rest, false⟩ } }
            supervisor := c.supervisor.inPhase .idle }
        have ht : t = ((d.signal (.started generation .writer)).andThen
            (·.signal (.started generation .reader))) := by
          simp [t, d, obey, attach, hbegin, Pipeline.attach_of_begin hbegin address rest,
            Supervisor.attached, Supervisor.inPhase, startLoops, quiet, Turn.andThen]
        rw [ht]
        exact ((keeps_signal id).andThen (keeps_signal id)) m (secured_attached h hup haccepted)
      | some mishap =>
        obtain ⟨⟨e, he⟩, hgone, -⟩ :=
          Pipeline.detached_of_begin hbegin hsocket address rest mishap
        let d : Client κ :=
          { c with
            retry := { c.retry with
              pipeline := (p.attach generation address rest (some mishap)).1 }
            supervisor := c.supervisor.pause now k e }
        have ht : t = (d.startLoops generation (some mishap)).andThen fun c => ⟨c, [.hangUp]⟩ := by
          simp [t, d, obey, attach, hbegin, he, Supervisor.attached, Supervisor.inPhase,
            Supervisor.pause, quiet, Turn.andThen]
        have hd : Secured credentials limit d m :=
          h.away m rfl hgone (by simp [d, Supervisor.pause, Supervisor.inPhase])
            (by simp [d, Supervisor.pause, Supervisor.inPhase])
        have hstill := socket_startLoops (c := d) hgone generation (some mishap)
        have hphase : (d.startLoops generation (some mishap)).client.supervisor.phase =
            .pausing (k.failed e) (now + c.supervisor.settings.delay) := by
          rw [supervisor_startLoops]
          rfl
        rw [ht]
        refine (keeps_startLoops d generation (some mishap)).andThen (fun l hl => ⟨?_, ?_⟩) m hd
        · exact hl.away _ rfl hstill (by simp [hphase]) (by simp [hphase])
        · exact proper_hangUp l

theorem obey_sending (c : Client κ) (now : Nat) (mishap : Option Pipeline.Mishap) (out : Bytes)
    (orders : List Supervisor.Order) :
    c.obey now mishap ((if out.isEmpty then [] else [.send out]) ++ orders) =
      ⟨(c.obey now mishap orders).client,
        (if out.isEmpty then [] else [.send out]) ++ (c.obey now mishap orders).effects⟩ := by
  split <;> rfl

theorem after_sending (l : Line) (out : Bytes) :
    l.after ((if out.isEmpty then [] else [.send out] : List (Effect κ)).map .did) =
      ⟨l.reach, l.input, l.sent ++ out⟩ := by
  cases out <;> simp [Line.after, Line.next]

theorem accepted_of_ended {g : Greeting} {input written rest : Bytes}
    (h : Handshake.Ended credentials limit input written (.established g rest)) (reach : Reach) :
    Accepted credentials limit ⟨reach, input, written⟩ := by
  cases h with
  | accepted hg hframe hreply hm =>
    exact ⟨g, written, [], _, _, hg, Handshake.authFrame_eq_ok_iff.1 hframe,
      (List.append_nil written).symm, hreply, Handshake.judge_eq_ok_iff.1 hm⟩

theorem proper_sending {input written out : Bytes} {last : Handshake ⊕ Handshake.Result}
    (hstands : Handshake.Stands credentials limit input (written ++ out) last)
    (hwritten : out = [] ∨ written = []) :
    Proper credentials limit ⟨.up, input, written⟩
      ((if out.isEmpty then [] else [.send out] : List (Effect κ)).map .did) := by
  split
  · exact proper_nil
  · rename_i hout
    have hnothing : written = [] := hwritten.resolve_left (by simpa using hout)
    refine proper_send ⟨rfl, fun _ => ?_, fun hsome => absurd hnothing hsome⟩
    rcases hstands.login_or_nothing with ⟨hnone, -⟩ | ⟨g, hg, hframe⟩
    · simp [hnothing] at hnone
      simp [hnone] at hout
    · rw [hnothing, List.nil_append] at hframe
      exact ⟨g, hg, Handshake.authFrame_eq_ok_iff.1 hframe⟩

theorem keeps_shaken (h : Secured credentials limit c l) (hsocket : c.retry.pipeline.socket = none)
    {s : Handshake} {input written : Bytes}
    (hs : Handshake.Shaking credentials limit s input written) (bs : Bytes) (now : Nat)
    (mishap : Option Pipeline.Mishap) (k : Campaign) (a : String) :
    let t := c.supervised now mishap (c.supervisor.shaken now k a (s.receive bs))
    let m : Line := ⟨.up, input ++ bs, written⟩
    Secured credentials limit t.client (m.after (t.effects.map .did : List (Entry κ))) ∧
      Proper credentials limit m (t.effects.map .did : List (Entry κ)) := by
  intro t m
  have hstands := Handshake.stands_receive hs bs
  have hwritten := Handshake.receive_written hs bs
  cases hreceive : s.receive bs with
  | mk out last =>
    rw [hreceive] at hstands hwritten
    have hsend := proper_sending (κ := κ) hstands hwritten
    -- What is sent comes first, and the rest of the turn goes on from there.
    have hsplit (supervisor : Supervisor) (orders : List Supervisor.Order)
        (ht : c.supervisor.shaken now k a (out, last) =
          (supervisor, (if out.isEmpty then [] else [.send out]) ++ orders))
        (hrest :
          let u := obey { c with supervisor := supervisor } now mishap orders
          Secured credentials limit u.client
            (Line.after ⟨.up, input ++ bs, written ++ out⟩ (u.effects.map .did : List (Entry κ))) ∧
          Proper credentials limit ⟨.up, input ++ bs, written ++ out⟩
            (u.effects.map .did : List (Entry κ))) :
        Secured credentials limit t.client (m.after (t.effects.map .did : List (Entry κ))) ∧
          Proper credentials limit m (t.effects.map .did : List (Entry κ)) := by
      have hturn : t = obey { c with supervisor := supervisor } now mishap
          ((if out.isEmpty then [] else [.send out]) ++ orders) := by
        simp only [t, hreceive, ht, supervised]
      rw [hturn, obey_sending]
      simp only [List.map_append, Line.after_append, after_sending]
      refine ⟨hrest.1, hsend.append ?_⟩
      rw [after_sending]
      exact hrest.2
    rcases last with next | ⟨g, rest⟩ | e
    · let shaking := c.supervisor.inPhase
        (.shaking k a next (now + c.supervisor.settings.connectTimeout))
      refine hsplit shaking [] (by simp [Supervisor.shaken, shaking]) ⟨?_, proper_nil⟩
      refine h.away (d := { c with supervisor := shaking }) _ rfl hsocket
        (by simp [shaking, Supervisor.inPhase]) ?_
      rintro _ _ _ _ hphase
      cases hphase
      exact ⟨rfl, hstands⟩
    · refine hsplit _ [.attach a rest] rfl ?_
      exact keeps_attach h hsocket rfl (accepted_of_ended hstands .up) now mishap k a a rest
    · refine hsplit _ [.hangUp] rfl ⟨?_, proper_hangUp _⟩
      exact h.paused _ hsocket now k e

theorem habit_keeps (credentials : Credentials) (limit : Nat) :
    Habit fun (c : Client κ) t _ => Keeps credentials limit c t where
  andThen h g := h.andThen g
  aside hc h := fun l hl => h l (hl.aside hc)
  words hc heffects := keeps_words hc heffects
  event he := keeps_absorb (Retry.loses_step he.inner)

theorem keeps_attend (huse : c.InUse) (now : Nat) :
    Keeps credentials limit c (c.attend now) := by
  unfold attend
  split
  · rename_i hreconnecting
    have hsocket := huse.socket (by rw [hreconnecting]; exact nofun)
    split
    · exact (keeps_signal id).andThen
        (f := fun c => c.supervised now none (c.supervisor.begin now c.state))
        (keeps_begin (socket_signal (s := .seeking) trivial hsocket) now _)
    · exact keeps_quiet c
  · rename_i hclosed
    have hsocket := huse.socket (by rw [hclosed]; exact nofun)
    intro l hl
    unfold Supervisor.closed
    split
    · exact ⟨hl.stopped _ hsocket, proper_hangUp l⟩
    · exact ⟨hl.stopped _ hsocket, proper_nil⟩
  · exact keeps_quiet c

theorem Secured.fetched (hl : Secured credentials limit c l) (i : Nat) :
    Secured credentials limit { c with ended := c.ended.eraseIdx i } l :=
  { hl with }

theorem keeps_proceed (huse : c.InUse) (now : Nat) (w : Worker) :
    Keeps credentials limit c (c.proceed now w) := by
  have hhabit : Habit fun (c : Client κ) t _ => Keeps credentials limit c t :=
    habit_keeps credentials limit
  cases w with
  | supervisor => exact keeps_attend huse now
  | opening => exact hhabit.look c now
  | waiter i =>
    intro l hl
    simp only [proceed, fetch]
    split
    · rename_i tag outcome _
      cases tag with
      | user tag =>
        exact keeps_words (.of_eq (by rfl)) (by simp [Effect.IsWord]) l (hl.fetched i)
      | read number => exact hhabit.answered _ now number outcome l (hl.fetched i)
      | members => exact hhabit.polled _ now outcome l (hl.fetched i)
    · exact keeps_quiet c l hl
  | replay =>
    simp only [proceed]
    split
    · exact hhabit.beginReplay c now
    · exact keeps_quiet c
  | writer => exact keeps_signal id

theorem keeps_patience (now : Nat) (state : Lifecycle.State) :
    Keeps credentials limit c (c.supervised now none (c.supervisor.tick now state)) := by
  intro l hl
  cases hphase : c.supervisor.phase with
  | pausing k till =>
    have hsocket := hl.busy (by simp [hphase])
    rw [Supervisor.tick, hphase]
    simp only
    split
    · exact keeps_pursue hsocket now state k l hl
    · exact keeps_quiet c l hl
  | shaking k a h till =>
    have hsocket := hl.busy (by simp [hphase])
    rw [Supervisor.tick, hphase]
    simp only
    split
    · exact ⟨hl.paused _ hsocket now k _, proper_hangUp l⟩
    · exact keeps_quiet c l hl
  | _ =>
    rw [Supervisor.tick, hphase]
    exact keeps_quiet c l hl

theorem Accepted.more (h : Accepted credentials limit l) (bytes : Bytes) (reach : Reach) :
    Accepted credentials limit ⟨reach, l.input ++ bytes, l.sent⟩ := by
  obtain ⟨g, frame, more, m, rest, hg, hframe, hsent, hreply, hm⟩ := h
  refine ⟨g, frame, more, m, rest ++ bytes, hg.more bytes, hframe, hsent, ?_, hm⟩
  rw [List.drop_append_of_le_length hg.length_le]
  exact Frame.receive_message_more hreply bytes

theorem Secured.heard (h : Secured credentials limit c l) (e : Event κ)
    (hdialing : ∀ k a, c.supervisor.phase ≠ .dialing k a)
    (hshaking : ∀ bytes mishap, e = .received bytes mishap → ∀ k a s till,
      c.supervisor.phase ≠ .shaking k a s till) :
    Secured credentials limit c (l.next (.came e)) :=
  { h with
    socket := by
      intro hsome
      obtain ⟨hup, haccepted⟩ := h.socket hsome
      cases e with
      | received bytes mishap =>
        simp only [Line.next, hup, if_true]
        exact ⟨trivial, haccepted.more bytes .up⟩
      | dialed result => rcases result with e | ⟨⟩ <;> simpa [Line.next, hup] using haccepted
      | _ => exact ⟨hup, haccepted⟩
    dialing := fun k a hphase => absurd hphase (hdialing k a)
    shaking := by
      intro k a s till hphase
      have hstands := h.shaking k a s till hphase
      cases e with
      | received bytes mishap => exact absurd hphase (hshaking bytes mishap rfl k a s till)
      | dialed result =>
        rcases result with e | ⟨⟩ <;> simpa [Line.next, hstands.1] using hstands.2
      | _ => exact hstands }

def Answers (credentials : Credentials) (limit : Nat) (c : Client κ) (e : Event κ) (t : Turn κ) :
    Prop :=
  ∀ l, Secured credentials limit c l →
    Secured credentials limit t.client
        ((l.next (.came e)).after (t.effects.map .did : List (Entry κ))) ∧
      Proper credentials limit (l.next (.came e)) (t.effects.map .did : List (Entry κ))

theorem answers_dialed (now : Nat) (result : Except ConnectionError Unit) :
    Answers credentials limit c (.dialed result) (c.step now (.dialed result)) := by
  intro l hl
  cases hphase : c.supervisor.phase with
  | dialing k a =>
    have hsocket := hl.busy (by simp [hphase])
    have hline := hl.dialing k a hphase
    rcases result with e | ⟨⟩
    · simp only [step, Supervisor.dialed, hphase]
      exact ⟨hl.paused _ hsocket now k _, proper_nil⟩
    · have hstart : Handshake.Shaking credentials limit
          (Handshake.start (some credentials) limit) [] [] := .greeting (by simp [greetingLength])
      have hshaken := keeps_shaken hl hsocket hstart [] now none k a
      simp only [step, Supervisor.dialed, hphase, hl.known, hl.limited, hline]
      exact hshaken
  | shaking k a h till =>
    have hheard := hl.heard (.dialed result) (by simp [hphase]) (by simp)
    simp only [step, Supervisor.dialed, hphase]
    exact keeps_quiet c _ hheard
  | stopped =>
    have hheard := hl.heard (.dialed result) (by simp [hphase]) (by simp)
    rcases result with e | ⟨⟩
    · simp only [step, Supervisor.dialed, hphase]
      exact keeps_quiet c _ hheard
    · simp only [step, Supervisor.dialed, hphase]
      refine ⟨?_, proper_hangUp _⟩
      exact hheard.away (d := c) _ rfl (hl.busy (by simp [hphase])) (by simp [hphase])
        (by simp [hphase])
  | _ =>
    have hheard := hl.heard (.dialed result) (by simp [hphase]) (by simp [hphase])
    simp only [step, Supervisor.dialed, hphase]
    exact keeps_quiet c _ hheard

theorem isShaking_iff :
    c.isShaking = true ↔ ∃ k a h till, c.supervisor.phase = .shaking k a h till := by
  unfold isShaking
  cases c.supervisor.phase <;> simp

theorem answers_received (now : Nat) (bytes : Bytes) (mishap : Option Pipeline.Mishap) :
    Answers credentials limit c (.received bytes mishap)
      (c.step now (.received bytes mishap)) := by
  intro l hl
  by_cases hshaking : c.isShaking
  · obtain ⟨k, a, h, till, hphase⟩ := isShaking_iff.1 hshaking
    have hsocket := hl.busy (by simp [hphase])
    obtain ⟨hup, hstands⟩ := hl.shaking k a h till hphase
    have hnext : l.next (.came (.received bytes mishap) : Entry κ) =
        ⟨.up, l.input ++ bytes, l.sent⟩ := by
      simp [Line.next, hup]
    simp only [step, hshaking, if_true, Supervisor.received, hphase, hnext]
    exact keeps_shaken hl hsocket hstands bytes now mishap k a
  · have hphase : ∀ k a h till, c.supervisor.phase ≠ .shaking k a h till := by
      intro k a h till hphase
      exact hshaking (isShaking_iff.2 ⟨k, a, h, till, hphase⟩)
    simp only [step, hshaking]
    by_cases hdialing : ∃ k a, c.supervisor.phase = .dialing k a
    · obtain ⟨k, a, hphase⟩ := hdialing
      have hnext : l.next (.came (.received bytes mishap) : Entry κ) = l := by
        simp [Line.next, hl.dialing k a hphase]
      rw [hnext]
      exact keeps_signal id l hl
    · refine keeps_signal id _ (hl.heard (.received bytes mishap) ?_ fun _ _ _ => hphase)
      exact fun k a hphase => hdialing ⟨k, a, hphase⟩

theorem keeps_step_hungUp (now : Nat) : Keeps credentials limit c (c.step now .hungUp) := by
  intro l hl
  by_cases hshaking : c.isShaking
  · obtain ⟨k, a, h, till, hphase⟩ := isShaking_iff.1 hshaking
    simp only [step, hshaking, if_true, Supervisor.hungUp, hphase]
    exact ⟨hl.paused _ (hl.busy (by simp [hphase])) now k _, proper_hangUp l⟩
  · simp only [step, hshaking]
    exact keeps_signal id l hl

theorem keeps_step_broken (now : Nat) (reason : String) :
    Keeps credentials limit c (c.step now (.broken reason)) := by
  intro l hl
  by_cases hshaking : c.isShaking
  · obtain ⟨k, a, h, till, hphase⟩ := isShaking_iff.1 hshaking
    simp only [step, hshaking, if_true, Supervisor.broken, hphase]
    exact ⟨hl.paused _ (hl.busy (by simp [hphase])) now k _, proper_hangUp l⟩
  · simp only [step, hshaking]
    cases hsocket : c.retry.pipeline.socket with
    | none => exact keeps_quiet c l hl
    | some socket => exact keeps_absorb (Retry.loses_broken (by simp [hsocket]) _ _) l hl

theorem answers_step (now : Nat) (e : Event κ) :
    Answers credentials limit c e (c.step now e) := by
  cases e with
  | dialed result => exact answers_dialed now result
  | received bytes mishap => exact answers_received now bytes mishap
  | hungUp => exact keeps_step_hungUp now
  | broken reason => exact keeps_step_broken now reason
  | clock => exact (habit_keeps credentials limit).tick now (fun _ => keeps_patience now _) c
  | execute request tag => exact (habit_keeps credentials limit).execute c now request tag
  | close => exact (habit_keeps credentials limit).shut c rfl

theorem proper_history (h : Secured credentials limit c l) (huse : c.InUse)
    (moves : List (Move κ)) :
    Proper credentials limit l (c.history moves) := by
  induction moves generalizing c l with
  | nil => exact proper_nil
  | cons m moves ih =>
    have huse' := inUse_act huse m
    cases m with
    | event now e =>
      obtain ⟨hlast, hproper⟩ := answers_step now e l h
      have hcame : Proper credentials limit l [(.came e : Entry κ)] := proper_single (by simp)
      exact hcame.append (hproper.append (ih hlast huse'))
    | proceed now w =>
      obtain ⟨hlast, hproper⟩ := keeps_proceed huse now w l h
      exact hproper.append (ih hlast huse')

theorem secured_create (s : Settings) (hknown : s.credentials = some credentials) (now : Nat) :
    Secured credentials s.maxFrame (start (create s now) : Turn κ).client Line.none where
  known := hknown
  limited := rfl
  socket hsome := absurd rfl hsome
  busy _ := rfl
  dialing _ _ := nofun
  shaking _ _ _ _ := nofun

/-- Whatever a server sends, and in whatever pieces it comes: to a greeting that is in order the
login for its salt is written, once, and the one reply to it decides. A client with these
credentials sends nothing else over a socket before that reply was a success. -/
theorem nothing_before_login (credentials : Credentials) (limit : Nat) (pieces : List Bytes)
    (s : Settings) (now : Nat) (moves : List (Move κ)) :
    Handshake.Opened credentials limit pieces.flatten
        (Handshake.talk (Handshake.start (some credentials) limit) pieces).1
        (Handshake.talk (Handshake.start (some credentials) limit) pieces).2 ∧
      Proper credentials s.maxFrame Line.none
        (lifetime { s with credentials := some credentials } now moves) := by
  constructor
  · have hstart : Handshake.Shaking credentials limit
        (Handshake.start (some credentials) limit) [] [] := .greeting (by simp [greetingLength])
    have hstands := Handshake.stands_talk hstart pieces
    exact Handshake.opened_of_stands (by simpa using hstands)
  · exact proper_history (secured_create { s with credentials := some credentials } rfl now)
      (inUse_after _ now []) moves

end TupleClient.Client
