import TupleClient.Proofs.Client.Supervising

/-!
The members of the cluster are asked for again and again. The connection is left when its server is
not among them and nothing is under way, but only where the members are news: a client that was busy
when a member went away keeps to it as long as the answer stays the same.
-/
namespace TupleClient

theorem Membership.leave_iff (known : Option (List String)) (addresses : Addresses)
    (attached : Option String) (pending : Nat) (members : List String) :
    (poll known addresses attached pending (.ok members)).leave = true ↔
      known ≠ some members ∧ (∃ address, attached = some address ∧ address ∉ members) ∧
        pending = 0 := by
  unfold poll
  by_cases hnews : known = some members
  · simp [hnews]
  · cases attached <;> simp [hnews]

namespace Client

variable {κ : Type} {c : Client κ}

/-- The members that a move learns: it takes up the answer to the question for them. -/
def reported (c : Client κ) : Move κ → Option (List String)
  | .proceed _ (.waiter i) =>
    match c.ended[i]? with
    | some (.members, outcome) => (Membership.ofAnswer outcome).toOption
    | _ => none
  | _ => none

/-- The members that were learned last. -/
def lastReport (c : Client κ) (known : Option (List String)) :
    List (Move κ) → Option (List String)
  | [] => known
  | m :: ms => (c.act m).client.lastReport ((c.reported m).or known) ms

def known (c : Client κ) : Option (List String) := c.discovery.known

theorem known_submit (now : Nat) (request : Request) (tag : κ) :
    (c.submit now request tag).client.known = c.known := by
  unfold submit
  split <;> rfl

theorem known_execute (now : Nat) (request : Request) (tag : κ) :
    (c.execute now request tag).client.known = c.known := by
  unfold execute
  split
  · rfl
  · exact known_submit now request tag

theorem known_awaitPoll (now : Nat) : (c.awaitPoll now).known = c.known := by
  unfold awaitPoll
  split <;> rfl

theorem known_finish (now : Nat) (purpose : Purpose κ)
    (result : Except ClientError Catalog.Snapshot) :
    (c.finish now purpose result).client.known = c.known := by
  cases purpose with
  | opening =>
    cases result with
    | ok s => exact known_awaitPoll now
    | error e => rfl
  | ensure request tag =>
    cases result with
    | ok s =>
      rw [finish]
      split
      · rfl
      · exact known_submit now request tag
    | error e => rfl
  | replay => rfl

theorem known_answered (now number : Nat) (outcome : Outcome) :
    (c.answered now number outcome).client.known = c.known := by
  unfold answered
  split
  · rfl
  · simp only
    split
    · rfl
    · exact known_finish now _ _

theorem Beside.known {c' : Client κ} (h : Beside c c') : c'.known = c.known :=
  congrArg Discovery.known h.discovery

theorem known_look (now : Nat) : (c.look now).client.known = c.known := by
  unfold look
  split
  · split
    · rfl
    · rfl
    · split <;> rfl
  · rfl
  · rfl

theorem known_tickDiscovery (now : Nat) : (c.tickDiscovery now).client.known = c.known := by
  unfold tickDiscovery
  split
  · split <;> rfl
  · rfl

theorem known_tickOpening (now : Nat) : (c.tickOpening now).client.known = c.known := by
  unfold tickOpening
  split
  · split
    · exact known_look now
    · rfl
  · rfl

theorem known_step (now : Nat) (e : Event κ) : (c.step now e).client.known = c.known := by
  by_cases he : e.IsHeard
  · exact (upkeep_heard now he).beside.known
  · cases e with
    | clock =>
      exact (known_tickOpening now).trans
        ((known_tickDiscovery now).trans (upkeep_keepTime c now).beside.known)
    | execute request tag => exact known_execute now request tag
    | close => rfl
    | _ => exact absurd trivial he

theorem known_polled (now : Nat) (outcome : Outcome) :
    (c.polled now outcome).client.known =
      ((Membership.ofAnswer outcome).toOption).or c.known := by
  have hverdict (addresses : Addresses) (attached : Option String) (pending : Nat) :
      (Membership.poll c.known addresses attached pending (Membership.ofAnswer outcome)).known =
        ((Membership.ofAnswer outcome).toOption).or c.known := by
    cases Membership.ofAnswer outcome with
    | error e => rfl
    | ok members =>
      by_cases hnews : c.known = some members <;> simp [Membership.poll, hnews, Except.toOption]
  unfold polled
  simp only
  split <;> exact (known_awaitPoll now).trans (hverdict ..)

theorem known_act (m : Move κ) : (c.act m).client.known = (c.reported m).or c.known := by
  cases m with
  | event now e => exact known_step now e
  | proceed now w =>
    cases w with
    | supervisor => exact (upkeep_attend c now).beside.known
    | opening => exact known_look now
    | waiter i =>
      cases hended : c.ended[i]? with
      | none => simp [act, proceed, fetch, reported, hended, quiet]
      | some x =>
        obtain ⟨tag, outcome⟩ := x
        simp only [act, proceed, fetch, reported, hended]
        cases tag with
        | user tag => rfl
        | read number => exact known_answered now number outcome
        | members => exact known_polled now outcome
    | replay =>
      simp only [act, proceed]
      split
      · unfold beginReplay
        simp only
        split <;> rfl
      · rfl
    | writer => rfl

theorem known_after (moves : List (Move κ)) :
    (c.after moves).known = c.lastReport c.known moves := by
  induction moves generalizing c with
  | nil => rfl
  | cons m moves ih =>
    rw [lastReport, ← known_act]
    exact ih

/-- A connection is given up in a turn, and the supervisor has to look for another. -/
structure Leaves (t : Turn κ) : Prop where
  state : t.client.state = .reconnecting
  socket : t.client.retry.pipeline.socket = none
  hungUp : .hangUp ∈ t.effects
  wanted : t.client.isWanted = true

/-- The connection and the operations are left alone in a turn, and nothing is said. -/
structure LeftAlone (c : Client κ) (t : Turn κ) : Prop where
  retry : t.client.retry = c.retry
  effects : t.effects = []

theorem leaves_reconnect (h : c.Rested) {s : Socket} (hsocket : c.retry.pipeline.socket = some s) :
    Leaves (c.signal .reconnect) := by
  let e : ClientError := .connection (.io "reconnect requested")
  obtain ⟨hgeneration, halive⟩ := h.use s hsocket
  have hcell : c.retry.pipeline.cell.fail s.generation e =
      (c.retry.pipeline.cell.enter .reconnecting (some e), true) :=
    if_pos ⟨hgeneration.symm, by
      rw [show c.retry.pipeline.cell.state = .alive from halive]
      exact ⟨rfl, nofun⟩⟩
  have hstep : c.retry.pipeline.signal .reconnect =
      ((Pipeline.teardown { c.retry.pipeline with
          cell := c.retry.pipeline.cell.enter .reconnecting (some e) } e).1,
        (Report.entered .reconnecting).andThen (Pipeline.teardown { c.retry.pipeline with
          cell := c.retry.pipeline.cell.enter .reconnecting (some e) } e).2) := by
    simp only [Pipeline.signal, Pipeline.forceReconnect, hsocket, Pipeline.fail, hcell, e]
  have hhungUp : (c.retry.signal .reconnect).2.hungUp = true := by
    simp [Retry.signal, Retry.absorb, hstep, Report.andThen, Pipeline.teardown, hsocket,
      Report.entered]
  have hstate : (c.signal .reconnect).client.state = .reconnecting := by
    rw [Client.state, pipeline_signal, hstep]
    rfl
  have hidle : (c.signal .reconnect).client.supervisor.phase = .idle := h.idle (by simp [hsocket])
  refine ⟨hstate, ?_, ?_, ?_⟩
  · rw [pipeline_signal, hstep]
    rfl
  · simp [signal, absorb, hhungUp]
  · simp only [isWanted, hstate, hidle]

/-- The members are news, the connection in use is to none of them, and nothing is under way. -/
structure Deserted (c : Client κ) (known : Option (List String)) (members : List String) :
    Prop where
  news : known ≠ some members
  gone : ∃ address, c.retry.pipeline.address? = some address ∧ address ∉ members
  idle : c.retry.pipeline.pending = []

theorem leaves_polled (h : c.Rested) (now : Nat) {outcome : Outcome} {members : List String}
    (hmembers : Membership.ofAnswer outcome = .ok members) :
    (c.Deserted c.known members → Leaves (c.polled now outcome)) ∧
      (¬ c.Deserted c.known members → c.LeftAlone (c.polled now outcome)) := by
  have hleave := Membership.leave_iff c.known c.supervisor.addresses c.retry.pipeline.address?
    c.retry.pipeline.pending.length members
  have hdeserted : c.Deserted c.known members ↔
      (Membership.poll c.known c.supervisor.addresses c.retry.pipeline.address?
        c.retry.pipeline.pending.length (.ok members)).leave = true := by
    rw [hleave]
    exact ⟨fun hd => ⟨hd.news, hd.gone, List.length_eq_zero_iff.2 hd.idle⟩,
      fun ⟨hnews, hgone, hidle⟩ => ⟨hnews, hgone, List.length_eq_zero_iff.1 hidle⟩⟩
  obtain ⟨discovery, hpolled⟩ := polled_eq c now outcome
  rw [hmembers, show c.discovery.known = c.known from rfl] at hpolled
  rw [hpolled]
  refine ⟨fun hd => ?_, fun hd => ?_⟩
  · obtain ⟨address, haddress, -⟩ := hd.gone
    obtain ⟨s, hs, -⟩ := Option.map_eq_some_iff.1 haddress
    simp only [hdeserted.1 hd, if_true]
    exact leaves_reconnect (c := { c with
      discovery := discovery, supervisor := { c.supervisor with addresses := _ } })
      ⟨h.use, h.busy⟩ hs
  · simp only [hdeserted.not.1 hd]
    exact ⟨rfl, rfl⟩

/-- However the polls of a run went, one that gives members makes the client leave its connection
exactly if these are not what the last one gave, the connection is to none of them and nothing is
under way. Otherwise the connection stays as it is. -/
theorem leaves_iff_news (s : Settings) (start now i : Nat) (moves : List (Move κ))
    (members : List String)
    (h : ((Client.start (create s start)).client.after moves).reported (.proceed now (.waiter i)) =
      some members) :
    let c := (Client.start (create s start)).client.after moves
    let last := (Client.start (create s start)).client.lastReport none moves
    (c.Deserted last members → Leaves (c.act (.proceed now (.waiter i)))) ∧
      (¬ c.Deserted last members → c.LeftAlone (c.act (.proceed now (.waiter i)))) := by
  intro c last
  have hlast : c.known = last := known_after moves
  have hrested : c.Rested := rested_after s start moves
  have hreported : c.reported (.proceed now (.waiter i)) = some members := h
  rw [← hlast]
  simp only [reported] at hreported
  split at hreported
  · rename_i outcome hended
    have htaken : Rested { c with ended := c.ended.eraseIdx i } := ⟨hrested.use, hrested.busy⟩
    have hmembers : Membership.ofAnswer outcome = .ok members := by
      cases hanswer : Membership.ofAnswer outcome with
      | error e => simp [hanswer, Except.toOption] at hreported
      | ok found =>
        rw [hanswer] at hreported
        exact congrArg _ (Option.some.inj hreported)
    have hturn : c.act (.proceed now (.waiter i)) =
        polled { c with ended := c.ended.eraseIdx i } now outcome := by
      simp only [act, proceed, fetch, hended]
      rfl
    obtain ⟨hleaves, halone⟩ := leaves_polled htaken now hmembers
    rw [hturn]
    exact ⟨fun hd => hleaves ⟨hd.news, hd.gone, hd.idle⟩, fun hd =>
      have halone := halone fun hd' => hd ⟨hd'.news, hd'.gone, hd'.idle⟩
      ⟨halone.retry, halone.effects⟩⟩
  · cases hreported

def elsewhere (sync : UInt8) : Bytes :=
  [0xce, 0, 0, 0, 17, 0x83, 0, 0, 1, sync, 5, 1, 0x81, 0x30, 0x91, 0xa6] ++ Bytes.ofText "b:3301"

/-- An idle client is asked for its members for the first time, and the answer has come. -/
def firstPoll : List (Move Unit) :=
  greeted ++ settling 300 [.clock] ++ [.event 300 (.received (elsewhere 3) none)]

theorem leaves_iff_news_of_firstPoll :
    let c := (start (create clustered 0)).client.after firstPoll
    c.reported (.proceed 300 (.waiter 0)) = some ["b:3301"] ∧
      Leaves (c.act (.proceed 300 (.waiter 0))) := by
  have hreported : ((start (create clustered 0)).client.after firstPoll).reported
      (.proceed 300 (.waiter 0)) =
      some ["b:3301"] := by decide +kernel
  have hidle :
      ((start (create clustered 0)).client.after firstPoll).retry.pipeline.pending.isEmpty =
      true := by decide +kernel
  have hdeserted : Deserted ((start (create clustered 0)).client.after firstPoll)
      ((start (create clustered 0)).client.lastReport none firstPoll) ["b:3301"] :=
    { news := by decide +kernel
      gone := ⟨"127.0.0.1:3301", by decide +kernel, by decide⟩
      idle := List.isEmpty_iff.1 hidle }
  exact ⟨hreported, (leaves_iff_news clustered 0 300 0 firstPoll _ hreported).1 hdeserted⟩

/-- A member goes away while an operation is under way. The operation ends, and the next poll gives
the same members: nothing is pending, the connection is to none of them, and yet it lives on. -/
theorem not_forall_left :
    let moves : List (Move Unit) :=
      greeted ++ settling 100 [.execute .ping ()] ++ settling 300 [.clock] ++
        settling 300 [.received (elsewhere 4) none] ++
        settling 300 [.received [0xce, 0, 0, 0, 6, 0x82, 0, 0, 1, 3, 0x80] none] ++
        settling 600 [.clock] ++ [.event 600 (.received (elsewhere 5) none)]
    let c := (start (create clustered 0)).client.after moves
    c.reported (.proceed 600 (.waiter 0)) = some ["b:3301"] ∧
      c.retry.pipeline.address? = some "127.0.0.1:3301" ∧
      c.retry.pipeline.pending.isEmpty = true ∧
      (c.act (.proceed 600 (.waiter 0))).client.state = .alive := by
  decide +kernel

end Client
end TupleClient
