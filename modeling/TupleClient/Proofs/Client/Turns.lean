import TupleClient.Proofs.Client.Runs
import TupleClient.Proofs.Retry.Losses
import TupleClient.Proofs.Retry.Places

/-!
What the turns of a client are made of: events of the retries, things that it notes for itself, and
words for its user. What holds of these, and of one after another, holds of all that a client does
by itself, but for what the supervisor orders.
-/
namespace TupleClient

namespace Retry

variable {κ : Type} {r : Retry κ}

/-- An event that neither brings a socket or the first state nor tells of a loss from outside. -/
def Event.IsInner : Event κ → Prop
  | .signal s => ¬ (Pipeline.Event.signal s : Pipeline.Event (Owner κ)).IsNew
  | _ => True

theorem loses_step {e : Event κ} (he : e.IsInner) :
    Loses r.pipeline (r.step e).1.pipeline (r.step e).2 := by
  cases e with
  | execute now fault request timeout tag =>
    exact loses_submit (r := { r with nextEntry := r.nextEntry + 1 }) now fault _
  | plain now fault request timeout tag => exact loses_submitPlain now fault request timeout tag
  | signal s => exact loses_signal he
  | clock now => exact loses_tick now
  | expired id => exact loses_expire id
  | replay now fault refreshed => exact loses_replay now fault refreshed
  | resubmit now fault => exact loses_resubmit now fault
  | refreshed now fault result => exact loses_replayAfter now fault result

end Retry

namespace Client

variable {κ : Type} {c c' : Client κ} {t : Turn κ}

/-- A client with the same operations and the same connection. -/
structure Aside (c c' : Client κ) : Prop where
  settings : c'.settings = c.settings
  pipeline : c'.retry.pipeline = c.retry.pipeline
  parked : c'.retry.parked = c.retry.parked
  closed : c'.retry.closed = c.retry.closed
  nextEntry : c'.retry.nextEntry = c.retry.nextEntry
  ended : c'.ended = c.ended
  phase : c'.supervisor.phase = c.supervisor.phase
  reconnect : c'.supervisor.settings = c.supervisor.settings

/-- Where all that counts is the same by computation, one equation says so. -/
theorem Aside.of_eq
    (h : (c'.settings, c'.retry.pipeline, c'.retry.parked, c'.retry.closed, c'.retry.nextEntry,
        c'.ended, c'.supervisor.phase, c'.supervisor.settings) =
      (c.settings, c.retry.pipeline, c.retry.parked, c.retry.closed, c.retry.nextEntry, c.ended,
        c.supervisor.phase, c.supervisor.settings)) : Aside c c' := by
  simp only [Prod.mk.injEq] at h
  obtain ⟨hsettings, hpipeline, hparked, hclosed, hnext, hended, hphase, hreconnect⟩ := h
  exact ⟨hsettings, hpipeline, hparked, hclosed, hnext, hended, hphase, hreconnect⟩

def Effect.IsWord : Effect κ → Prop
  | .opened => True
  | .refused _ => True
  | .finished _ _ => True
  | _ => False

/-- An operation and the error that may pass it ended with. -/
def Effect.passing? : Effect κ → Option (κ × ClientError)
  | .finished tag (.error e) => if e.isTransient then some (tag, e) else none
  | _ => none

/-- The operation for which the catalog was read, and why that could not be done. -/
def refusedFor {α : Type} (purpose : Option (Purpose κ)) (result : Except ClientError α) :
    List (κ × ClientError) :=
  match purpose, result with
  | some (.ensure _ tag), .error e => [(tag, e)]
  | _, _ => []

/-- An event that a client makes for its retries by itself. Without a cluster an operation of the
user is tried only once, and no client is closed for a reason that may pass. -/
structure Inner (c : Client κ) (e : Retry.Event (Tag κ)) : Prop where
  inner : e.IsInner
  tried : ∀ tag, (none, .user tag) ∈ c.retry.gives e → c.settings.cluster.isSome = false
  lasting : ∀ reason, e = .signal (.closed reason) → reason.isTransient = false

/-- A property of turns, and of the errors that may pass with which operations end in them. -/
structure Habit (P : Client κ → Turn κ → List (κ × ClientError) → Prop) : Prop where
  andThen : ∀ {c : Client κ} {t : Turn κ} {f : Client κ → Turn κ} {told more},
    P c t told → P t.client (f t.client) more → P c (t.andThen f) (told ++ more)
  aside : ∀ {c c' : Client κ} {t : Turn κ} {told}, Aside c c' → P c' t told → P c t told
  words : ∀ {c c' : Client κ} {effects : List (Effect κ)}, Aside c c' →
    (∀ e ∈ effects, e.IsWord) → P c ⟨c', effects⟩ (effects.filterMap Effect.passing?)
  event : ∀ {c : Client κ} {e}, Inner c e → P c (c.absorb (c.retry.step e)) []

variable {P : Client κ → Turn κ → List (κ × ClientError) → Prop}

theorem Habit.quiet (h : Habit P) (c : Client κ) : P c c.quiet [] :=
  h.words (.of_eq (by rfl)) (by simp)

theorem Habit.signal (h : Habit P) (c : Client κ) (s : Signal)
    (hs : ¬ (Pipeline.Event.signal s : Pipeline.Event (Retry.Owner (Tag κ))).IsNew)
    (hlasting : ∀ reason, s = .closed reason → reason.isTransient = false) :
    P c (c.signal s) [] :=
  h.event (e := .signal s) ⟨hs, by simp [Retry.gives], fun reason hreason =>
    hlasting reason (by simpa using hreason)⟩

theorem Habit.call (h : Habit P) (c : Client κ) (e : Retry.Event (Tag κ))
    (htried : ∀ tag, (none, .user tag) ∈ c.retry.gives e → c.settings.cluster.isSome = false)
    (hcall : ∀ s, e ≠ .signal s) : P c (c.absorb (c.retry.step e)) [] := by
  refine h.event ⟨?_, htried, fun reason hreason => absurd hreason (hcall _)⟩
  cases e with
  | signal s => exact absurd rfl (hcall s)
  | _ => trivial

theorem Habit.shut (h : Habit P) (c : Client κ) {reason : ClientError}
    (hreason : reason.isTransient = false) : P c (c.shut reason) [] :=
  h.aside (.of_eq (by rfl))
    (h.signal { c with discovery := { c.discovery with next := none } } (.closed reason) id
      (by simp [hreason]))

theorem Habit.refuse (h : Habit P) (c : Client κ) {reason : ClientError}
    (hreason : reason.isTransient = false) (e : ClientError) : P c (c.refuse reason e) [] := by
  have hrefused (c : Client κ) : P c ⟨{ c with opening := .refused }, [.refused e]⟩ [] :=
    h.words (.of_eq (by rfl)) (by simp [Effect.IsWord])
  exact h.andThen (h.shut c hreason) (hrefused _)

theorem Habit.readFor (h : Habit P) (c : Client κ) (now : Nat) (task : Task κ) :
    P c (c.readFor now task) [] :=
  h.aside (.of_eq (by rfl)) (h.call { c with tasks := c.tasks ++ [task] }
    (.plain now none task.refresh.view.request c.settings.operationTimeout (.read task.number))
    (by simp [Retry.gives]) (by simp))

theorem Habit.startTask (h : Habit P) (c : Client κ) (now : Nat) (purpose : Purpose κ) :
    P c (c.startTask now purpose) [] :=
  h.aside (.of_eq (by rfl)) (h.readFor { c with nextTask := c.nextTask + 1 } now _)

theorem Habit.submit (h : Habit P) (c : Client κ) (now : Nat) (request : Request) (tag : κ) :
    P c (c.submit now request tag) [] := by
  rw [Client.submit]
  by_cases hcluster : c.settings.cluster.isSome = true
  · simp only [hcluster, if_true]
    exact h.call c (.execute now none request c.settings.operationTimeout (.user tag))
      (by simp [Retry.gives]) (by simp)
  · simp only [hcluster]
    exact h.call c (.plain now none request c.settings.operationTimeout (.user tag))
      (fun _ _ => by simpa using hcluster) (by simp)

theorem Habit.execute (h : Habit P) (c : Client κ) (now : Nat) (request : Request) (tag : κ) :
    P c (c.execute now request tag) [] := by
  unfold Client.execute
  split
  · exact h.startTask c now _
  · exact h.submit c now request tag

theorem awaitPoll_eq (c : Client κ) (now : Nat) :
    ∃ discovery, c.awaitPoll now = { c with discovery := discovery } := by
  unfold awaitPoll
  split
  · exact ⟨_, rfl⟩
  · exact ⟨c.discovery, rfl⟩

/-- An answer about the members changes what is known of them and where to connect. It may be a
reason to leave the connection. -/
theorem polled_eq (c : Client κ) (now : Nat) (outcome : Outcome) :
    let verdict := Membership.poll c.discovery.known c.supervisor.addresses
      c.retry.pipeline.address? c.retry.pipeline.pending.length (Membership.ofAnswer outcome)
    ∃ discovery, c.polled now outcome =
      let d : Client κ := { c with
        discovery := discovery
        supervisor := { c.supervisor with addresses := verdict.addresses } }
      if verdict.leave then d.signal .reconnect else d.quiet := by
  intro verdict
  obtain ⟨discovery, hpoll⟩ := awaitPoll_eq
    { c with
      discovery := { c.discovery with known := verdict.known }
      supervisor := { c.supervisor with addresses := verdict.addresses } } now
  refine ⟨discovery, ?_⟩
  unfold polled
  simp only
  rw [hpoll]

theorem polled_cases (c : Client κ) (now : Nat) (outcome : Outcome) :
    ∃ discovery addresses,
      let d : Client κ := { c with
        discovery := discovery, supervisor := { c.supervisor with addresses := addresses } }
      c.polled now outcome = d.signal .reconnect ∨ c.polled now outcome = d.quiet := by
  obtain ⟨discovery, hpolled⟩ := polled_eq c now outcome
  simp only at hpolled
  generalize Membership.poll _ _ _ _ _ = verdict at hpolled
  refine ⟨discovery, verdict.addresses, ?_⟩
  rw [hpolled]
  exact ite_eq_or_eq ..

theorem Habit.finish (h : Habit P) (c : Client κ) (now : Nat) (purpose : Purpose κ)
    (result : Except ClientError Catalog.Snapshot) :
    P c (c.finish now purpose result)
      ((refusedFor (some purpose) result).filter fun x => x.2.isTransient) := by
  cases purpose with
  | opening =>
    cases result with
    | ok snapshot =>
      obtain ⟨discovery, hpoll⟩ := awaitPoll_eq { c.install snapshot with opening := .done } now
      rw [Client.finish, hpoll]
      exact h.words (.of_eq (by rfl)) (by simp [Effect.IsWord])
    | error e => exact h.refuse c rfl e
  | ensure request tag =>
    cases result with
    | ok snapshot =>
      rw [Client.finish]
      split
      · exact h.words (.of_eq (by rfl)) (by simp [Effect.IsWord])
      · exact h.aside (.of_eq (by rfl)) (h.submit (c.install snapshot) now request tag)
    | error e =>
      have hfinished : P c ⟨c, [.finished tag (.error e)]⟩ _ :=
        h.words (.of_eq (by rfl)) (by simp [Effect.IsWord])
      rw [Client.finish]
      cases htransient : e.isTransient <;>
        simpa [Effect.passing?, refusedFor, htransient] using hfinished
  | replay => exact h.call c (.refreshed now none result) (by simp [Retry.gives]) (by simp)

theorem lasting_of_answered {refresh : Catalog.Refresh} {response : Response} {e : ClientError}
    (h : refresh.answered (.ok response) = .inr (.error e)) : e.isTransient = false := by
  unfold Catalog.Refresh.answered at h
  grind [ClientError.isTransient]

/-- A reading that is given up is refused for what its last answer is, if that may pass. -/
theorem refusedFor_answered {refresh : Catalog.Refresh} {outcome : Outcome}
    {result : Except ClientError Catalog.Snapshot} (h : refresh.answered outcome = .inr result)
    (purpose : Purpose κ) :
    (refusedFor (some purpose) result).filter (fun x => x.2.isTransient) =
      (refusedFor (some purpose) outcome).filter fun x => x.2.isTransient := by
  cases outcome with
  | error e =>
    obtain rfl : .error e = result := Sum.inr.inj h
    cases purpose <;> rfl
  | ok response =>
    cases result with
    | ok snapshot => cases purpose <;> rfl
    | error e => cases purpose <;> simp [refusedFor, lasting_of_answered h]

theorem Habit.answered (h : Habit P) (c : Client κ) (now number : Nat) (outcome : Outcome) :
    P c (c.answered now number outcome)
      ((refusedFor ((c.tasks.find? (·.number == number)).map Task.purpose) outcome).filter
        fun x => x.2.isTransient) := by
  unfold Client.answered
  split
  · rename_i hnone
    rw [hnone]
    exact h.quiet c
  · rename_i task hfound
    rw [hfound]
    simp only
    split
    · rename_i refresh hread
      have hnothing : refusedFor (some task.purpose) outcome = [] := by
        cases outcome with
        | ok response => cases hpurpose : task.purpose <;> rfl
        | error e => cases hread
      rw [Option.map_some, hnothing]
      exact h.aside (.of_eq (by rfl)) (h.readFor _ now _)
    · rename_i result hread
      rw [Option.map_some, ← refusedFor_answered hread]
      exact h.aside (.of_eq (by rfl)) (h.finish _ now _ _)

theorem Habit.polled (h : Habit P) (c : Client κ) (now : Nat) (outcome : Outcome) :
    P c (c.polled now outcome) [] := by
  obtain ⟨discovery, addresses, hleft | hstayed⟩ := polled_cases c now outcome
  · rw [hleft]
    exact h.aside (.of_eq (by rfl)) (h.signal _ .reconnect id (by simp))
  · rw [hstayed]
    exact h.words (.of_eq (by rfl)) (by simp)

theorem Habit.look (h : Habit P) (c : Client κ) (now : Nat) : P c (c.look now) [] := by
  unfold Client.look
  split
  · split
    · exact h.words (.of_eq (by rfl)) (by simp)
    · exact h.refuse c rfl _
    · split
      · exact h.refuse c rfl _
      · exact h.quiet c
  · exact h.aside (.of_eq (by rfl)) (h.startTask { c with opening := .loading } now _)
  · exact h.quiet c

theorem Habit.beginReplay (h : Habit P) (c : Client κ) (now : Nat) :
    P c (c.beginReplay now) [] := by
  unfold Client.beginReplay
  simp only
  split
  · exact h.aside (.of_eq (by rfl)) (h.startTask _ now _)
  · exact h.aside (.of_eq (by rfl))
      (h.call { c with retry := { c.retry with replays := c.retry.replays - 1 } }
        (.resubmit now none) (by simp [Retry.gives]) (by simp))

theorem Habit.tickDiscovery (h : Habit P) (c : Client κ) (now : Nat) :
    P c (c.tickDiscovery now) [] := by
  unfold Client.tickDiscovery
  split
  · rename_i function time hfunction hnext
    split
    · exact h.aside (.of_eq (by rfl))
        (h.call { c with discovery := { c.discovery with next := none } }
          (.plain now none (Membership.request function) c.settings.operationTimeout .members)
          (by simp [Retry.gives]) (by simp))
    · exact h.quiet c
  · exact h.quiet c

theorem Habit.tickOpening (h : Habit P) (c : Client κ) (now : Nat) :
    P c (c.tickOpening now) [] := by
  unfold Client.tickOpening
  split
  · split
    · exact h.look c now
    · exact h.quiet c
  · exact h.quiet c

theorem Habit.tick (h : Habit P) (now : Nat)
    (hpatience : ∀ c : Client κ, P c (c.supervised now none (c.supervisor.tick now c.state)) [])
    (c : Client κ) : P c (c.tick now) [] :=
  h.andThen (f := (·.tickOpening now)) (h.andThen (f := (·.tickDiscovery now))
    (h.andThen (f := fun c => c.supervised now none (c.supervisor.tick now c.state))
      (h.andThen (f := fun c => c.absorb (c.retry.tick now)) (h.signal c (.clock now) id (by simp))
        (h.call _ (.clock now) (by simp [Retry.gives]) (by simp)))
      (hpatience _)) (h.tickDiscovery _ now)) (h.tickOpening _ now)

end Client
end TupleClient
