import Mathlib.Data.List.Induction
import TupleClient.Reconnect

/-!
What becomes of the making of a connection, whatever the source of addresses and however the
attempts go. The source takes notes of what it is asked, so that the attempts can be told apart.
-/
namespace TupleClient.Supervisor

structure Question where
  number : UInt32
  last : Option ClientError
  address : Option String

/-- A source of addresses that takes notes. -/
structure Noting (α : Type) where
  source : α
  asked : List Question

variable {α : Type}

instance [AddressSource α] : AddressSource (Noting α) where
  next n number last :=
    let (source, address) := AddressSource.next n.source number last
    (⟨source, n.asked ++ [⟨number, last, address⟩]⟩, address)

inductive Event (α : Type) where
  | begun
  | dialed (result : Except ConnectionError Unit)
  | received (bytes : Bytes)
  | hungUp
  | broken (reason : String)
  | ticked
  | closed
  | renewed (source : α)

/-- An event, its time, the state of the client then, and what comes of taking a connection into use
if that is ordered. -/
structure Moment (α : Type) where
  now : Nat
  state : Lifecycle.State
  attaching : Except ClientError Unit
  event : Event α

def Order.isAttach : Order → Bool
  | .attach _ _ => true
  | _ => false

def Order.dial? : Order → Option String
  | .dial address => some address
  | _ => none

def Order.close? : Order → Option ClientError
  | .close e => some e
  | _ => none

/-- What a supervisor does at a moment, if `renew` puts a new source of addresses in place. -/
def heard {β : Type} [AddressSource β] (renew : α → β → β) (s : Supervisor β) (m : Moment α) :
    Supervisor β × List Order :=
  match m.event with
  | .begun => s.begin m.now m.state
  | .dialed result => s.dialed m.now result
  | .received bytes => s.received m.now bytes
  | .hungUp => s.hungUp m.now
  | .broken reason => s.broken m.now reason
  | .ticked => s.tick m.now m.state
  | .closed => s.closed
  | .renewed source => ({ s with addresses := renew source s.addresses }, [])

/-- The notes stay when the source is renewed. -/
def told [AddressSource α] (s : Supervisor (Noting α)) (m : Moment α) :
    Supervisor (Noting α) × List Order :=
  s.heard (fun source notes => { notes with source := source }) m

/-- A supervisor that orders a connection to be taken into use is told at once what came of it. -/
def answering (now : Nat) (attaching : Except ClientError Unit) (step : Supervisor α × List Order) :
    Supervisor α × List Order :=
  if step.2.any Order.isAttach then
    let (last, more) := step.1.attached now attaching
    (last, step.2 ++ more)
  else step

def react [AddressSource α] (s : Supervisor (Noting α)) (m : Moment α) :
    Supervisor (Noting α) × List Order :=
  answering m.now m.attaching (s.told m)

def verdict (attaching : Except ClientError Unit) :
    Handshake ⊕ Handshake.Result → Option (Except ClientError Unit)
  | .inl _ => none
  | .inr (.established _ _) => some attaching
  | .inr (.failed e) => some (.error e)

def ending? (s : Supervisor (Noting α)) (m : Moment α) : Option (Except ClientError Unit) :=
  match s.phase, m.event with
  | .dialing _ _, .dialed (.error e) => some (.error (.connection e))
  | .dialing _ _, .dialed (.ok ()) =>
    verdict m.attaching (Handshake.start s.settings.credentials s.settings.maxFrame).advance.2
  | .shaking _ _ h _, .received bytes => verdict m.attaching (h.receive bytes).2
  | .shaking _ _ h _, .hungUp => verdict m.attaching (.inr h.hungUp)
  | .shaking _ _ _ _, .broken reason => some (.error (.connection (.io reason)))
  | .shaking _ _ h till, .ticked =>
    if till ≤ m.now then verdict m.attaching (.inr h.timedOut) else none
  | _, _ => none

/-- Attempts for which there is no address end at once. -/
def nowhere (questions : List Question) : List (Except ClientError Unit) :=
  (questions.filter (·.address.isNone)).map fun _ => .error (.connection .notConnected)

/-- A supervisor and what was to be seen of its latest attempts, since a connection was wanted: how
they ended, and what it ordered. It is `closed` once the client was. -/
structure Log (α : Type) where
  supervisor : Supervisor (Noting α)
  ended : List (Except ClientError Unit)
  ordered : List Order
  closed : Bool

namespace Log

def phase (l : Log α) : Phase := l.supervisor.phase

def asked (l : Log α) : List Question := l.supervisor.addresses.asked

def retries (l : Log α) : Option Nat := l.supervisor.settings.retries

def closes (l : Log α) : List ClientError := l.ordered.filterMap Order.close?

def dials (l : Log α) : List String := l.ordered.filterMap Order.dial?

def put (l : Log α) (endings : List (Except ClientError Unit))
    (step : Supervisor (Noting α) × List Order) (closed : Bool) : Log α :=
  { supervisor := step.1
    ended := l.ended ++ endings ++ nowhere (step.1.addresses.asked.drop l.asked.length)
    ordered := l.ordered ++ step.2
    closed := l.closed || closed }

def idle (settings : ReconnectSettings) (source : α) : Log α :=
  ⟨create settings ⟨source, []⟩, [], [], false⟩

def renew (l : Log α) : Log α :=
  { l with
    supervisor := { l.supervisor with addresses := { l.supervisor.addresses with asked := [] } }
    ended := []
    ordered := [] }

def isClosing (m : Moment α) : Bool :=
  m.state == .closed ||
    match m.event with
    | .closed => true
    | _ => false

/-- Whether a connection is wanted, and none is being made. -/
def begins (l : Log α) (m : Moment α) : Bool :=
  l.supervisor.isIdle &&
    match m.event with
    | .begun => true
    | _ => false

def next [AddressSource α] (l : Log α) (m : Moment α) : Log α :=
  let l := if l.begins m then l.renew else l
  l.put (l.supervisor.ending? m).toList (l.supervisor.react m) (isClosing m)

def run [AddressSource α] (l : Log α) (moments : List (Moment α)) : Log α := moments.foldl next l

end Log

/-- Each question has the number of its attempt, counted in 32 bits, and the error of the one
before. -/
structure Asked (l : Log α) (lasts : List (Option ClientError)) : Prop where
  numbers : l.asked.map (·.number) = (List.range lasts.length).map UInt32.ofNat
  lasts : l.asked.map (·.last) = lasts

def campaign (errors : List ClientError) : Campaign :=
  ⟨UInt32.ofNat errors.length, errors.getLast?⟩

/-- How far it is. The attempts that have failed did so with `errors`, in this order. A limit is a
number of 32 bits. -/
inductive Stage (l : Log α) : Prop where
  | unbegun (phase : l.phase = .idle ∨ l.phase = .stopped ∧ l.closed = true) (asked : l.asked = [])
      (ended : l.ended = []) (closes : l.closes = [])
  /-- One more attempt is under way, or was when the client was closed. -/
  | trying (errors : List ClientError) (address : String)
      (phase : l.phase = .dialing (campaign errors) address ∨
        (∃ h till, l.phase = .shaking (campaign errors) address h till) ∨
        l.phase = .stopped ∧ l.closed = true)
      (asked : Asked l (none :: errors.map some))
      (address : (l.asked.getLast?.bind (·.address)) = some address)
      (ended : l.ended = errors.map .error)
      (allowed : ∀ n, l.retries = some n → n < UInt32.size → errors.length < n)
      (closes : l.closes = [])
  /-- None is under way, and the next one comes after a pause, unless the client was closed. -/
  | failed (errors : List ClientError)
      (phase : (∃ till, l.phase = .pausing (campaign errors) till) ∨
        l.phase = .stopped ∧ l.closed = true)
      (asked : Asked l (none :: errors.map some).dropLast)
      (ended : l.ended = errors.map .error)
      (allowed : ∀ n, l.retries = some n → n < UInt32.size → errors.length ≤ n)
      (closes : l.closes = [])
  /-- One more attempt succeeded, and there are no others. -/
  | attached (errors : List ClientError)
      (phase : l.phase = .idle ∨ l.phase = .stopped ∧ l.closed = true)
      (asked : Asked l (none :: errors.map some))
      (ended : l.ended = errors.map .error ++ [.ok ()])
      (allowed : ∀ n, l.retries = some n → n < UInt32.size → errors.length < n)
      (closes : l.closes = [])
  /-- As many attempts as there may be have failed, and it is given up. -/
  | gaveUp (errors : List ClientError) (phase : l.phase = .stopped)
      (asked : Asked l (none :: errors.map some).dropLast)
      (ended : l.ended = errors.map .error)
      (limit : l.retries = some errors.length) (short : errors.length < UInt32.size)
      (closes : l.closes = [.connection (.exhausted errors.length
        ((errors.getLast?.map ClientError.message).getD ""))])

variable {l l' : Log α} {s : Supervisor (Noting α)} {m : Moment α} {errors : List ClientError}
  {lasts : List (Option ClientError)}

theorem Asked.of_eq (h : Asked l lasts) (hasked : l'.asked = l.asked) : Asked l' lasts :=
  ⟨hasked ▸ h.numbers, hasked ▸ h.lasts⟩

theorem Asked.append (h : Asked l lasts) {last : Option ClientError} {address : Option String}
    (hasked : l'.asked = l.asked ++ [⟨UInt32.ofNat lasts.length, last, address⟩]) :
    Asked l' (lasts ++ [last]) := by
  refine ⟨?_, ?_⟩
  · rw [hasked, List.map_append, h.numbers, List.length_append, List.length_singleton,
      List.range_succ, List.map_append]
    rfl
  · rw [hasked, List.map_append, h.lasts]
    rfl

theorem campaign_failed (errors : List ClientError) (e : ClientError) :
    (campaign errors).failed e = campaign (errors ++ [e]) := by
  simp [campaign, Campaign.failed, UInt32.ofNat_add]

theorem toNat_attempt_campaign {n : Nat} (hn : n < UInt32.size) (h : errors.length ≤ n) :
    (campaign errors).attempt.toNat = errors.length := by
  rw [campaign, UInt32.toNat_ofNat']
  exact Nat.mod_eq_of_lt (Nat.lt_of_le_of_lt h hn)

theorem dropLast_append (errors : List ClientError) :
    (none :: errors.map some).dropLast ++ [(campaign errors).last] = none :: errors.map some := by
  induction errors using List.reverseRecOn with
  | nil => rfl
  | append_singleton errors e =>
    rw [List.map_append, List.map_singleton, ← List.cons_append, List.dropLast_concat]
    simp [campaign]

theorem length_dropLast (errors : List ClientError) :
    UInt32.ofNat (none :: errors.map some).dropLast.length = (campaign errors).attempt := by
  simp [campaign]

structure SameNotes (l l' : Log α) : Prop where
  asked : l'.asked = l.asked
  ended : l'.ended = l.ended
  closes : l'.closes = l.closes
  retries : l'.retries = l.retries
  closed : l.closed = true → l'.closed = true

theorem SameNotes.phase (hnotes : SameNotes l l') {P : Phase → Prop}
    (hphase : l'.phase = l.phase ∨ l'.phase = .stopped ∧ l'.closed = true)
    (h : P l.phase ∨ l.phase = .stopped ∧ l.closed = true) :
    P l'.phase ∨ l'.phase = .stopped ∧ l'.closed = true := by
  rcases hphase with hsame | hstopped
  · rw [hsame]
    exact h.imp id (And.imp id hnotes.closed)
  · exact .inr hstopped

/-- Nothing is added to the notes, and nothing goes on unless the phase stays. -/
theorem Stage.same (h : Stage l) (hnotes : SameNotes l l')
    (hphase : l'.phase = l.phase ∨ l'.phase = .stopped ∧ l'.closed = true) : Stage l' := by
  cases h with
  | unbegun phase asked ended closes =>
    exact .unbegun (hnotes.phase (P := (· = .idle)) hphase phase) (hnotes.asked.trans asked)
      (hnotes.ended.trans ended) (hnotes.closes.trans closes)
  | trying errors address phase asked haddress ended allowed closes =>
    refine .trying errors address ?_ (asked.of_eq hnotes.asked) (hnotes.asked ▸ haddress)
      (hnotes.ended.trans ended) (hnotes.retries ▸ allowed) (hnotes.closes.trans closes)
    rw [← or_assoc] at phase ⊢
    exact hnotes.phase (P := fun now => now = .dialing (campaign errors) address ∨
      ∃ h till, now = .shaking (campaign errors) address h till) hphase phase
  | failed errors phase asked ended allowed closes =>
    exact .failed errors
      (hnotes.phase (P := fun now => ∃ till, now = .pausing (campaign errors) till) hphase phase)
      (asked.of_eq hnotes.asked) (hnotes.ended.trans ended) (hnotes.retries ▸ allowed)
      (hnotes.closes.trans closes)
  | attached errors phase asked ended allowed closes =>
    exact .attached errors (hnotes.phase (P := (· = .idle)) hphase phase)
      (asked.of_eq hnotes.asked) (hnotes.ended.trans ended) (hnotes.retries ▸ allowed)
      (hnotes.closes.trans closes)
  | gaveUp errors phase asked ended limit short closes =>
    have hstopped : l'.phase = .stopped := hphase.elim (·.trans phase) And.left
    exact .gaveUp errors hstopped (asked.of_eq hnotes.asked) (hnotes.ended.trans ended)
      (hnotes.retries.trans limit) short (hnotes.closes.trans closes)

structure Quiet (s : Supervisor (Noting α)) (step : Supervisor (Noting α) × List Order) : Prop where
  settings : step.1.settings = s.settings
  asked : step.1.addresses.asked = s.addresses.asked
  closes : step.2.filterMap Order.close? = []
  dials : step.2.filterMap Order.dial? = []

theorem Quiet.ended_put {step : Supervisor (Noting α) × List Order} (h : Quiet l.supervisor step)
    (endings : List (Except ClientError Unit)) (closed : Bool) :
    (l.put endings step closed).ended = l.ended ++ endings := by
  have hnone : step.1.addresses.asked.drop l.asked.length = [] := by
    rw [h.asked]
    exact List.drop_length
  rw [Log.put, hnone]
  exact List.append_nil _

theorem Quiet.closes_put {step : Supervisor (Noting α) × List Order} (h : Quiet l.supervisor step)
    (endings : List (Except ClientError Unit)) (closed : Bool) :
    (l.put endings step closed).closes = l.closes := by
  rw [Log.closes, Log.put, List.filterMap_append, h.closes, List.append_nil]
  rfl

theorem Quiet.same {step : Supervisor (Noting α) × List Order} (h : Quiet l.supervisor step)
    (closed : Bool) : SameNotes l (l.put [] step closed) where
  asked := h.asked
  ended := (h.ended_put [] closed).trans (List.append_nil _)
  closes := h.closes_put [] closed
  retries := congrArg ReconnectSettings.retries h.settings
  closed hl := by rw [Log.put, hl, Bool.true_or]

theorem isClosing_of_state (h : m.state = .closed) : Log.isClosing m = true := by
  simp [Log.isClosing, h]

def Trying (phase : Phase) (c : Campaign) (address : String) : Prop :=
  phase = .dialing c address ∨ ∃ h till, phase = .shaking c address h till

/-- No attempt is under way, and none is due. -/
def Resting (m : Moment α) : Phase → Prop
  | .idle => m.event ≠ .begun
  | .stopped => True
  | .pausing _ till => m.event = .ticked → ¬ till ≤ m.now
  | _ => False

inductive Else (l : Log α) (m : Moment α) : Prop where
  | trying (c : Campaign) (address : String) (h : Trying l.phase c address)
  | resting (h : Resting m l.phase)

theorem moment_cases (l : Log α) (m : Moment α) :
    (l.phase = .idle ∧ m.event = .begun) ∨
      (∃ c till, l.phase = .pausing c till ∧ m.event = .ticked ∧ till ≤ m.now) ∨ Else l m := by
  cases hphase : l.phase with
  | idle =>
    by_cases hevent : m.event = .begun
    · exact .inl ⟨rfl, hevent⟩
    · exact .inr (.inr (.resting (hphase ▸ hevent)))
  | dialing c address => exact .inr (.inr (.trying c address (.inl hphase)))
  | shaking c address h till => exact .inr (.inr (.trying c address (.inr ⟨h, till, hphase⟩)))
  | pausing c till =>
    by_cases hdue : m.event = .ticked ∧ till ≤ m.now
    · exact .inr (.inl ⟨c, till, rfl, hdue⟩)
    · refine .inr (.inr (.resting ?_))
      rw [hphase]
      exact fun hticked htime => hdue ⟨hticked, htime⟩
  | stopped =>
    refine .inr (.inr (.resting ?_))
    rw [hphase]
    trivial

theorem closed_put (endings : List (Except ClientError Unit))
    (step : Supervisor (Noting α) × List Order) (hclosing : Log.isClosing m = true) :
    (l.put endings step (Log.isClosing m)).closed = true := by
  rw [Log.put, hclosing, Bool.or_true]

variable [AddressSource α]

theorem react_eq {step : Supervisor (Noting α) × List Order} (htold : s.told m = step)
    (horders : step.2.any Order.isAttach = false) : s.react m = step := by
  rw [react, htold]
  exact if_neg (by simp [horders])

def LeadsTo (m : Moment α) (c : Campaign) (address : String) (phase : Phase) :
    Option (Except ClientError Unit) → Prop
  | none => Trying phase c address ∨ phase = .stopped ∧ Log.isClosing m = true
  | some (.ok ()) => phase = .idle
  | some (.error e) => ∃ till, phase = .pausing (c.failed e) till

theorem react_shaken (c : Campaign) (address : String)
    (result : Bytes × (Handshake ⊕ Handshake.Result))
    (htold : s.told m = s.shaken m.now c address result) :
    Quiet s (s.react m) ∧
      LeadsTo m c address (s.react m).1.phase (verdict m.attaching result.2) := by
  obtain ⟨bytes, outcome⟩ := result
  have hsending (more : List Order) :
      let orders : List Order := (if bytes.isEmpty then [] else [.send bytes]) ++ more
      orders.filterMap Order.close? = more.filterMap Order.close? ∧
        orders.filterMap Order.dial? = more.filterMap Order.dial? ∧
        orders.any Order.isAttach = more.any Order.isAttach := by
    cases bytes <;> exact ⟨rfl, rfl, rfl⟩
  cases outcome with
  | inl h =>
    obtain ⟨hcloses, hdials, hattach⟩ := hsending []
    rw [List.append_nil] at hcloses hdials hattach
    rw [react_eq htold hattach]
    exact ⟨⟨rfl, rfl, hcloses, hdials⟩, .inl (.inr ⟨h, _, rfl⟩)⟩
  | inr result =>
    cases result with
    | failed e =>
      obtain ⟨hcloses, hdials, hattach⟩ := hsending [.hangUp]
      rw [react_eq htold hattach]
      exact ⟨⟨rfl, rfl, hcloses, hdials⟩, _, rfl⟩
    | established g rest =>
      have hreact : s.react m =
          let answer := (s.inPhase (.dialing c address)).attached m.now m.attaching
          (answer.1, (if bytes.isEmpty then [] else [.send bytes]) ++
            (.attach address rest :: answer.2)) := by
        rw [react, htold]
        refine (if_pos (hsending [.attach address rest]).2.2).trans ?_
        simp only [shaken, List.append_assoc]
        rfl
      rw [hreact]
      cases hresult : m.attaching with
      | ok u =>
        obtain ⟨hcloses, hdials, -⟩ := hsending [.attach address rest]
        exact ⟨⟨rfl, rfl, hcloses, hdials⟩, rfl⟩
      | error e =>
        obtain ⟨hcloses, hdials, -⟩ := hsending [.attach address rest, .hangUp]
        exact ⟨⟨rfl, rfl, hcloses, hdials⟩, _, rfl⟩

theorem react_trying {c : Campaign} {address : String} (h : Trying s.phase c address)
    (m : Moment α) :
    Quiet s (s.react m) ∧ LeadsTo m c address (s.react m).1.phase (s.ending? m) := by
  obtain ⟨settings, addresses, phase⟩ := s
  obtain ⟨now, state, attaching, event⟩ := m
  rcases h with rfl | ⟨h, till, rfl⟩
  · cases event with
    | dialed result =>
      cases result with
      | error e => exact ⟨⟨rfl, rfl, rfl, rfl⟩, _, rfl⟩
      | ok u =>
        exact react_shaken c address
          (Handshake.start settings.credentials settings.maxFrame).advance rfl
    | closed => exact ⟨⟨rfl, rfl, rfl, rfl⟩, .inr ⟨rfl, by simp [Log.isClosing]⟩⟩
    | _ => exact ⟨⟨rfl, rfl, rfl, rfl⟩, .inl (.inl rfl)⟩
  · cases event with
    | received bytes => exact react_shaken c address (h.receive bytes) rfl
    | hungUp => exact ⟨⟨rfl, rfl, rfl, rfl⟩, _, rfl⟩
    | broken reason => exact ⟨⟨rfl, rfl, rfl, rfl⟩, _, rfl⟩
    | ticked =>
      by_cases htime : till ≤ now
      · have hreact : react ⟨settings, addresses, .shaking c address h till⟩
            ⟨now, state, attaching, .ticked⟩ =
            (pause ⟨settings, addresses, .shaking c address h till⟩ now c
              (.connection (.io "Resource temporarily unavailable (os error 11)")), [.hangUp]) :=
          react_eq (if_pos htime) rfl
        rw [hreact]
        refine ⟨⟨rfl, rfl, rfl, rfl⟩, ?_⟩
        simp only [ending?, if_pos htime]
        exact ⟨_, rfl⟩
      · have hreact : react ⟨settings, addresses, .shaking c address h till⟩
            ⟨now, state, attaching, .ticked⟩ =
              (⟨settings, addresses, .shaking c address h till⟩, []) :=
          react_eq (if_neg htime) rfl
        rw [hreact]
        refine ⟨⟨rfl, rfl, rfl, rfl⟩, ?_⟩
        simp only [ending?, if_neg htime]
        exact .inl (.inr ⟨h, till, rfl⟩)
    | closed => exact ⟨⟨rfl, rfl, rfl, rfl⟩, .inr ⟨rfl, by simp [Log.isClosing]⟩⟩
    | _ => exact ⟨⟨rfl, rfl, rfl, rfl⟩, .inl (.inr ⟨h, till, rfl⟩)⟩

theorem react_resting (h : Resting m s.phase) :
    Quiet s (s.react m) ∧ s.ending? m = none ∧
      ((s.react m).1.phase = s.phase ∨
        (s.react m).1.phase = .stopped ∧ Log.isClosing m = true) := by
  obtain ⟨settings, addresses, phase⟩ := s
  obtain ⟨now, state, attaching, event⟩ := m
  cases phase with
  | idle =>
    cases event with
    | begun => exact absurd rfl h
    | closed => exact ⟨⟨rfl, rfl, rfl, rfl⟩, rfl, .inr ⟨rfl, by simp [Log.isClosing]⟩⟩
    | _ => exact ⟨⟨rfl, rfl, rfl, rfl⟩, rfl, .inl rfl⟩
  | dialing c address => exact h.elim
  | shaking c address h till => exact h.elim
  | pausing c till =>
    cases event with
    | ticked =>
      have hreact : react ⟨settings, addresses, .pausing c till⟩ ⟨now, state, attaching, .ticked⟩ =
          (⟨settings, addresses, .pausing c till⟩, []) := react_eq (if_neg (h rfl)) rfl
      rw [hreact]
      exact ⟨⟨rfl, rfl, rfl, rfl⟩, rfl, .inl rfl⟩
    | closed => exact ⟨⟨rfl, rfl, rfl, rfl⟩, rfl, .inr ⟨rfl, by simp [Log.isClosing]⟩⟩
    | _ => exact ⟨⟨rfl, rfl, rfl, rfl⟩, rfl, .inl rfl⟩
  | stopped =>
    cases event with
    | dialed result => cases result <;> exact ⟨⟨rfl, rfl, rfl, rfl⟩, rfl, .inl rfl⟩
    | _ => exact ⟨⟨rfl, rfl, rfl, rfl⟩, rfl, .inl rfl⟩

/-- What is done before an attempt: nothing if the client is closed, the end if as many have failed
as may, and otherwise the source is asked. -/
inductive Pursued (s : Supervisor (Noting α)) (now : Nat) (state : Lifecycle.State) (c : Campaign)
    (step : Supervisor (Noting α) × List Order) : Prop where
  | closed (hclosed : state = .closed) (hstep : step = (s.inPhase .stopped, []))
  | gaveUp (n : Nat) (hopen : state ≠ .closed) (hlimit : s.settings.retries = some n)
      (hn : n ≤ c.attempt.toNat) (hstep : step = (s.inPhase .stopped, [.close c.exhausted]))
  | nowhere (source : α) (hopen : state ≠ .closed)
      (hallowed : ∀ n, s.settings.retries = some n → c.attempt.toNat < n)
      (hstep : step = (pause { s with
        addresses := ⟨source, s.addresses.asked ++ [⟨c.attempt, c.last, none⟩]⟩ } now c
          (.connection .notConnected), []))
  | dials (source : α) (address : String) (hopen : state ≠ .closed)
      (hallowed : ∀ n, s.settings.retries = some n → c.attempt.toNat < n)
      (hstep : step = ({ s with
        addresses := ⟨source, s.addresses.asked ++ [⟨c.attempt, c.last, some address⟩]⟩
        phase := .dialing c address }, [.dial address]))

theorem pursued (s : Supervisor (Noting α)) (now : Nat) (state : Lifecycle.State) (c : Campaign) :
    Pursued s now state c (s.pursue now state c) := by
  have htry (hopen : state ≠ .closed)
      (hallowed : ∀ n, s.settings.retries = some n → c.attempt.toNat < n)
      (hdecide : c.decide s.settings.retries state = .attempt) :
      Pursued s now state c (s.pursue now state c) := by
    cases hnext : AddressSource.next s.addresses.source c.attempt c.last with
    | mk source address =>
      have hnoted : AddressSource.next s.addresses c.attempt c.last =
          (⟨source, s.addresses.asked ++ [⟨c.attempt, c.last, address⟩]⟩, address) := by
        simp only [AddressSource.next, hnext]
      cases address with
      | none => exact .nowhere source hopen hallowed (by simp only [pursue, hdecide, hnoted])
      | some address =>
        exact .dials source address hopen hallowed (by simp only [pursue, hdecide, hnoted])
  by_cases hclosed : state = .closed
  · exact .closed hclosed (by simp only [pursue, Campaign.decide, if_pos hclosed])
  · cases hlimit : s.settings.retries with
    | none => exact htry hclosed (by simp [hlimit]) (by simp [Campaign.decide, hclosed, hlimit])
    | some n =>
      by_cases hn : n ≤ c.attempt.toNat
      · exact .gaveUp n hclosed hlimit hn (by simp [pursue, Campaign.decide, hclosed, hlimit, hn])
      · refine htry hclosed ?_ (by simp [Campaign.decide, hclosed, hlimit, hn])
        intro k hk
        obtain rfl : n = k := Option.some.inj (hlimit.symm.trans hk)
        exact Nat.lt_of_not_le hn

theorem stage_pursue (hasked : Asked l (none :: errors.map some).dropLast)
    (hended : l.ended = errors.map .error)
    (hallowed : ∀ n, l.retries = some n → n < UInt32.size → errors.length ≤ n)
    (hcloses : l.closes = []) (now : Nat)
    {state : Lifecycle.State} {closed : Bool} (hclosed : state = .closed → closed = true) :
    Stage (l.put [] (l.supervisor.pursue now state (campaign errors)) closed) := by
  have hsame {step : Supervisor (Noting α) × List Order}
      (hsupervisor : step.1.addresses.asked = l.asked) :
      (l.put [] step closed).ended = errors.map .error := by
    rw [Log.put, hsupervisor, List.drop_length]
    simpa [nowhere] using hended
  have hasks {step : Supervisor (Noting α) × List Order} (address : Option String)
      (hstep : step.1.addresses.asked =
        l.asked ++ [⟨(campaign errors).attempt, (campaign errors).last, address⟩]) :
      Asked (l.put [] step closed) (none :: errors.map some) := by
    rw [← dropLast_append]
    exact hasked.append (length_dropLast errors ▸ hstep)
  have hends {step : Supervisor (Noting α) × List Order} (address : Option String)
      (hstep : step.1.addresses.asked =
        l.asked ++ [⟨(campaign errors).attempt, (campaign errors).last, address⟩]) :
      (l.put [] step closed).ended = errors.map .error ++
        nowhere [⟨(campaign errors).attempt, (campaign errors).last, address⟩] := by
    rw [Log.put, hstep, List.drop_left, List.append_nil, hended]
  have hfewer (hmore : ∀ n, l.retries = some n → (campaign errors).attempt.toNat < n) :
      ∀ n, l.retries = some n → n < UInt32.size → errors.length < n := by
    intro n hn hshort
    rw [← toNat_attempt_campaign hshort (hallowed n hn hshort)]
    exact hmore n hn
  cases pursued l.supervisor now state (campaign errors) with
  | closed hstate hstep =>
    rw [hstep]
    refine .failed errors (.inr ⟨rfl, ?_⟩) (hasked.of_eq rfl) (hsame rfl) hallowed ?_
    · rw [Log.put, hclosed hstate, Bool.or_true]
    · simpa [Log.put, Log.closes] using hcloses
  | gaveUp n hopen hlimit hn hstep =>
    have hshort : n < UInt32.size := Nat.lt_of_le_of_lt hn (campaign errors).attempt.toNat_lt_size
    have hattempt := toNat_attempt_campaign hshort (hallowed n hlimit hshort)
    obtain rfl : n = errors.length := Nat.le_antisymm (hattempt ▸ hn) (hallowed n hlimit hshort)
    rw [hstep]
    refine .gaveUp errors rfl (hasked.of_eq rfl) (hsame rfl) hlimit hshort ?_
    rw [Log.closes, Log.put, List.filterMap_append,
      show l.ordered.filterMap Order.close? = [] from hcloses, List.nil_append,
      Campaign.exhausted, hattempt]
    rfl
  | nowhere source hopen hmore hstep =>
    rw [hstep]
    refine .failed (errors ++ [.connection .notConnected])
      (.inl ⟨now + l.supervisor.settings.delay, ?_⟩) ?_ ?_ ?_ ?_
    · exact congrArg (Phase.pausing · _) (campaign_failed errors _)
    · rw [List.map_append, List.map_singleton, ← List.cons_append, List.dropLast_concat]
      exact hasks none rfl
    · rw [List.map_append]
      exact hends none rfl
    · intro n hn hshort
      rw [List.length_append]
      exact hfewer hmore n hn hshort
    · simpa [Log.put, Log.closes] using hcloses
  | dials source address hopen hmore hstep =>
    rw [hstep]
    refine .trying errors address (.inl rfl) (hasks (some address) rfl) ?_ ?_ (hfewer hmore) ?_
    · simp [Log.asked, Log.put]
    · exact (hends (some address) rfl).trans (List.append_nil _)
    · simpa [Log.put, Log.closes, Order.close?] using hcloses

theorem attach_pursue (s : Supervisor α) (now : Nat)
    (state : Lifecycle.State) (c : Campaign) :
    (s.pursue now state c).2.any Order.isAttach = false := by
  unfold pursue
  split
  · rfl
  · rfl
  · split <;> rfl

theorem next_begun (hphase : l.phase = .idle) (hevent : m.event = .begun) :
    l.next m = l.renew.put [] (l.renew.supervisor.pursue m.now m.state .start)
      (Log.isClosing m) := by
  obtain ⟨⟨settings, addresses, phase⟩, ended, ordered, closed⟩ := l
  obtain ⟨now, state, attaching, event⟩ := m
  obtain rfl : phase = .idle := hphase
  obtain rfl : event = .begun := hevent
  have hreact := react_eq (s := ⟨settings, ⟨addresses.source, []⟩, .idle⟩)
    (m := ⟨now, state, attaching, .begun⟩) rfl
    (attach_pursue
      (⟨settings, ⟨addresses.source, []⟩, .idle⟩ : Supervisor (Noting α)) now state .start)
  exact congrArg (Log.put _ [] · _) hreact

theorem next_due {c : Campaign} {till : Nat} (hphase : l.phase = .pausing c till)
    (hevent : m.event = .ticked) (htime : till ≤ m.now) :
    l.next m = l.put [] (l.supervisor.pursue m.now m.state c) (Log.isClosing m) := by
  obtain ⟨⟨settings, addresses, phase⟩, ended, ordered, closed⟩ := l
  obtain ⟨now, state, attaching, event⟩ := m
  obtain rfl : phase = .pausing c till := hphase
  obtain rfl : event = .ticked := hevent
  have hreact := react_eq (s := ⟨settings, addresses, .pausing c till⟩)
    (m := ⟨now, state, attaching, .ticked⟩) (if_pos htime)
    (attach_pursue (⟨settings, addresses, .pausing c till⟩ : Supervisor (Noting α)) now state c)
  exact congrArg (Log.put _ [] · _) hreact

theorem next_else (h : Else l m) :
    l.next m = l.put (l.supervisor.ending? m).toList (l.supervisor.react m) (Log.isClosing m) ∧
      Quiet l.supervisor (l.supervisor.react m) := by
  have hnot : l.begins m = false := by
    by_contra hbegins
    obtain ⟨hidle, hevent⟩ := Bool.and_eq_true_iff.1 (Bool.not_eq_false _ ▸ hbegins)
    cases h with
    | trying c address h =>
      rcases h with hphase | ⟨_, _, hphase⟩ <;>
        simp [isIdle, show l.supervisor.phase = _ from hphase] at hidle
    | resting h =>
      rw [isIdle, show l.supervisor.phase = l.phase from rfl] at hidle
      split at hidle
      · rename_i hphase
        rw [hphase] at h
        split at hevent
        · exact h ‹_›
        · cases hevent
      · cases hidle
  refine ⟨by rw [Log.next, hnot]; rfl, ?_⟩
  cases h with
  | trying c address h => exact (react_trying h m).1
  | resting h => exact (react_resting h).1

theorem Stage.rest (h : Stage l) (hresting : Resting m l.phase) : Stage (l.next m) := by
  obtain ⟨hquiet, hending, hphase⟩ := react_resting (s := l.supervisor) hresting
  rw [(next_else (.resting hresting)).1, hending]
  exact h.same (hquiet.same (Log.isClosing m)) (hphase.imp id (And.imp id (closed_put _ _)))

theorem stage_attempt {address : String} (hphase : Trying l.phase (campaign errors) address)
    (hasked : Asked l (none :: errors.map some))
    (haddress : (l.asked.getLast?.bind (·.address)) = some address)
    (hended : l.ended = errors.map .error)
    (hallowed : ∀ n, l.retries = some n → n < UInt32.size → errors.length < n)
    (hcloses : l.closes = [])
    (m : Moment α) : Stage (l.next m) := by
  obtain ⟨hquiet, hleads⟩ := react_trying hphase m
  rw [(next_else (.trying _ _ hphase)).1]
  have hended' := (hquiet.ended_put (l.supervisor.ending? m).toList (Log.isClosing m)).trans
    (congrArg (· ++ _) hended)
  have hcloses' :=
    (hquiet.closes_put (l.supervisor.ending? m).toList (Log.isClosing m)).trans hcloses
  have hallowed' : ∀ n, (l.supervisor.react m).1.settings.retries = some n → n < UInt32.size →
      errors.length < n := fun n hn =>
      hallowed n ((congrArg ReconnectSettings.retries hquiet.settings).symm.trans hn)
  cases hending : l.supervisor.ending? m with
  | none =>
    rw [hending] at hleads hended' hcloses'
    refine .trying errors address ?_ (hasked.of_eq hquiet.asked)
      ((congrArg (·.getLast?.bind (·.address)) hquiet.asked).trans haddress)
      (hended'.trans (List.append_nil _)) hallowed' hcloses'
    rcases hleads with (hdialing | hshaking) | ⟨hstopped, hclosing⟩
    · exact .inl hdialing
    · exact .inr (.inl hshaking)
    · exact .inr (.inr ⟨hstopped, closed_put _ _ hclosing⟩)
  | some result =>
    rw [hending] at hleads hended' hcloses'
    cases result with
    | ok u =>
      exact .attached errors (.inl hleads) (hasked.of_eq hquiet.asked) hended' hallowed' hcloses'
    | error e =>
      obtain ⟨till, hpausing⟩ := hleads
      refine .failed (errors ++ [e]) (.inl ⟨till, ?_⟩) ?_ ?_ ?_ hcloses'
      · exact hpausing.trans (congrArg (Phase.pausing · _) (campaign_failed errors e))
      · rw [List.map_append, List.map_singleton, ← List.cons_append, List.dropLast_concat]
        exact hasked.of_eq hquiet.asked
      · rw [List.map_append]
        exact hended'
      · intro n hn hshort
        rw [List.length_append]
        exact hallowed' n hn hshort

theorem stage_next (h : Stage l) (m : Moment α) : Stage (l.next m) := by
  have hstays (hphase : l.phase = .stopped) : Stage (l.next m) :=
    h.rest (by rw [hphase]; trivial)
  have hbegins (hphase : l.phase = .idle) : Stage (l.next m) := by
    by_cases hevent : m.event = .begun
    · rw [next_begun hphase hevent]
      have hended : l.renew.ended = ([] : List ClientError).map .error := rfl
      exact stage_pursue ⟨rfl, rfl⟩ hended (fun _ _ _ => Nat.zero_le _) rfl m.now isClosing_of_state
    · exact h.rest (hphase ▸ hevent)
  cases h with
  | unbegun phase asked ended closes => exact phase.elim hbegins fun hstopped => hstays hstopped.1
  | trying errors address phase asked haddress ended allowed closes =>
    rcases phase with hdialing | hshaking | ⟨hstopped, -⟩
    · exact stage_attempt (.inl hdialing) asked haddress ended allowed closes m
    · exact stage_attempt (.inr hshaking) asked haddress ended allowed closes m
    · exact hstays hstopped
  | failed errors phase asked ended allowed closes =>
    rcases phase with ⟨till, hpausing⟩ | ⟨hstopped, -⟩
    · by_cases hdue : m.event = .ticked ∧ till ≤ m.now
      · rw [next_due hpausing hdue.1 hdue.2]
        exact stage_pursue asked ended allowed closes m.now isClosing_of_state
      · refine Stage.rest (.failed errors (.inl ⟨till, hpausing⟩) asked ended allowed closes) ?_
        rw [hpausing]
        exact fun hticked htime => hdue ⟨hticked, htime⟩
    · exact hstays hstopped
  | attached errors phase asked ended allowed closes =>
    exact phase.elim hbegins fun hstopped => hstays hstopped.1
  | gaveUp errors phase asked ended limit short closes => exact hstays phase

theorem dials_pursue (h : l.dials = l.asked.filterMap (·.address)) (now : Nat)
    (state : Lifecycle.State) (c : Campaign) (closed : Bool) :
    (l.put [] (l.supervisor.pursue now state c) closed).dials =
      (l.put [] (l.supervisor.pursue now state c) closed).asked.filterMap (·.address) := by
  have hdials (more : List Order) : (l.ordered ++ more).filterMap Order.dial? =
      l.asked.filterMap (·.address) ++ more.filterMap Order.dial? := by
    rw [List.filterMap_append, ← h]
    rfl
  cases pursued l.supervisor now state c with
  | closed _ hstep =>
    rw [hstep]
    exact (hdials _).trans (List.append_nil _)
  | gaveUp _ _ _ _ hstep =>
    rw [hstep]
    exact (hdials _).trans (List.append_nil _)
  | nowhere source _ _ hstep =>
    have hasked : (l.put [] (l.supervisor.pursue now state c) closed).asked =
        l.asked ++ [⟨c.attempt, c.last, none⟩] := by
      rw [hstep]
      rfl
    rw [hasked, List.filterMap_append, hstep]
    exact hdials []
  | dials source address _ _ hstep =>
    have hasked : (l.put [] (l.supervisor.pursue now state c) closed).asked =
        l.asked ++ [⟨c.attempt, c.last, some address⟩] := by
      rw [hstep]
      rfl
    rw [hasked, List.filterMap_append, hstep]
    exact hdials [.dial address]

theorem dials_next (h : l.dials = l.asked.filterMap (·.address)) (m : Moment α) :
    (l.next m).dials = (l.next m).asked.filterMap (·.address) := by
  rcases moment_cases l m with ⟨hphase, hevent⟩ | ⟨c, till, hphase, hevent, htime⟩ | helse
  · rw [next_begun hphase hevent]
    exact dials_pursue rfl m.now m.state .start _
  · rw [next_due hphase hevent htime]
    exact dials_pursue h m.now m.state c _
  · obtain ⟨hnext, hquiet⟩ := next_else helse
    have hasked : (l.next m).asked = l.asked := hnext ▸ hquiet.asked
    rw [hasked, ← h, hnext, Log.dials, Log.put, List.filterMap_append, hquiet.dials,
      List.append_nil]
    rfl

theorem settings_pursue (s : Supervisor (Noting α)) (now : Nat) (state : Lifecycle.State)
    (c : Campaign) : (s.pursue now state c).1.settings = s.settings := by
  cases pursued s now state c with
  | closed _ hstep => rw [hstep]; rfl
  | gaveUp _ _ _ _ hstep => rw [hstep]; rfl
  | nowhere _ _ _ hstep => rw [hstep]; rfl
  | dials _ _ _ _ hstep => rw [hstep]

theorem settings_next (l : Log α) (m : Moment α) :
    (l.next m).supervisor.settings = l.supervisor.settings := by
  rcases moment_cases l m with ⟨hphase, hevent⟩ | ⟨c, till, hphase, hevent, htime⟩ | helse
  · rw [next_begun hphase hevent]
    exact settings_pursue l.renew.supervisor m.now m.state .start
  · rw [next_due hphase hevent htime]
    exact settings_pursue l.supervisor m.now m.state c
  · rw [(next_else helse).1]
    exact (next_else helse).2.settings

theorem quiet_pursue_of_closed {c : Campaign} (hclosed : m.state = .closed)
    (htold : s.told m = s.pursue m.now m.state c) : Quiet s (s.react m) := by
  rw [react_eq htold (attach_pursue ..)]
  cases pursued s m.now m.state c with
  | closed _ hstep =>
    rw [hstep]
    exact ⟨rfl, rfl, rfl, rfl⟩
  | gaveUp _ hopen => exact absurd hclosed hopen
  | nowhere _ hopen => exact absurd hclosed hopen
  | dials _ _ hopen => exact absurd hclosed hopen

theorem quiet_of_closed (l : Log α) (hclosed : m.state = .closed) :
    Quiet l.supervisor (l.supervisor.react m) := by
  rcases moment_cases l m with ⟨hphase, hevent⟩ | ⟨c, till, hphase, hevent, htime⟩ | helse
  · refine quiet_pursue_of_closed (c := .start) hclosed ?_
    simp only [told, heard, hevent, Supervisor.begin, show l.supervisor.phase = _ from hphase]
  · refine quiet_pursue_of_closed (c := c) hclosed ?_
    simp only [told, heard, hevent, tick, show l.supervisor.phase = _ from hphase, if_pos htime]
  · exact (next_else helse).2

/-- What holds of a supervisor and its latest attempts at any time. -/
structure Orderly (settings : ReconnectSettings) (l : Log α) : Prop where
  settings : l.supervisor.settings = settings
  stage : Stage l
  dials : l.dials = l.asked.filterMap (·.address)
  begins : ∀ m, l.phase = .idle → m.event = .begun →
    ∃ step, Pursued l.renew.supervisor m.now m.state .start step ∧
      l.next m = l.renew.put [] step (Log.isClosing m)
  goesOn : ∀ c till m, l.phase = .pausing c till → m.event = .ticked → till ≤ m.now →
    ∃ step, Pursued l.supervisor m.now m.state c step ∧ l.next m = l.put [] step (Log.isClosing m)
  closed : ∀ m, m.state = .closed → Quiet l.supervisor (l.supervisor.react m)

theorem orderly_run (settings : ReconnectSettings) (source : α) (moments : List (Moment α)) :
    Orderly settings ((Log.idle settings source).run moments) := by
  have hinvariant : ∀ {l : Log α}, Stage l ∧ l.dials = l.asked.filterMap (·.address) ∧
      l.supervisor.settings = settings →
      Stage (l.run moments) ∧ (l.run moments).dials = (l.run moments).asked.filterMap (·.address) ∧
        (l.run moments).supervisor.settings = settings := by
    induction moments with
    | nil => exact id
    | cons m moments ih =>
      rintro l ⟨hstage, hdials, hsettings⟩
      exact ih ⟨stage_next hstage m, dials_next hdials m, (settings_next l m).trans hsettings⟩
  obtain ⟨hstage, hdials, hsettings⟩ := hinvariant
    (l := Log.idle settings source) ⟨.unbegun (.inl rfl) rfl rfl rfl, rfl, rfl⟩
  exact
    { settings := hsettings
      stage := hstage
      dials := hdials
      begins := fun m hphase hevent => ⟨_, pursued .., next_begun hphase hevent⟩
      goesOn := fun c till m hphase hevent htime => ⟨_, pursued .., next_due hphase hevent htime⟩
      closed := fun m => quiet_of_closed _ }

omit [AddressSource α] in
theorem Stage.numbers (h : Stage l) :
    l.asked.map (·.number) = (List.range l.asked.length).map UInt32.ofNat := by
  have hasked {lasts : List (Option ClientError)} (h : Asked l lasts) :
      l.asked.map (·.number) = (List.range l.asked.length).map UInt32.ofNat := by
    have hlength : l.asked.length = lasts.length := by rw [← h.lasts, List.length_map]
    rw [hlength, h.numbers]
  cases h with
  | unbegun phase asked => rw [asked]; rfl
  | trying errors address phase asked => exact hasked asked
  | failed errors phase asked => exact hasked asked
  | attached errors phase asked => exact hasked asked
  | gaveUp errors phase asked => exact hasked asked

def tireless : ReconnectSettings := ⟨0, none, 0, none, 0⟩

def failing : List (Moment Addresses) :=
  [⟨0, .connecting, .ok (), .ticked⟩, ⟨0, .connecting, .ok (), .dialed (.error .notConnected)⟩]

theorem run_failing (n : Nat) {l : Log Addresses} {c : Campaign} {asked : List Question}
    (h : l.supervisor = ⟨tireless, ⟨.single "a:1", asked⟩, .pausing c 0⟩) :
    (l.run (List.replicate n failing).flatten).asked.length = asked.length + n := by
  induction n generalizing l c asked with
  | zero => exact congrArg (·.addresses.asked.length) h
  | succ n ih =>
    have hnext : (l.run failing).supervisor = ⟨tireless,
        ⟨.single "a:1", asked ++ [⟨c.attempt, c.last, some "a:1"⟩]⟩,
        .pausing (c.failed (.connection .notConnected)) 0⟩ := by
      obtain ⟨supervisor, ended, ordered, closed⟩ := l
      obtain rfl := h
      rfl
    rw [List.replicate_succ, List.flatten_cons, Log.run, List.foldl_append]
    refine (ih hnext).trans ?_
    rw [List.length_append, List.length_singleton]
    omega

theorem exists_asked (n : Nat) : ∃ moments,
    ((Log.idle tireless (Addresses.single "a:1")).run moments).asked.length = 1 + n := by
  refine ⟨[⟨0, .connecting, .ok (), .begun⟩,
    ⟨0, .connecting, .ok (), .dialed (.error .notConnected)⟩] ++
      (List.replicate n failing).flatten, ?_⟩
  have hfirst : ((Log.idle tireless (Addresses.single "a:1")).run
      [⟨0, .connecting, .ok (), .begun⟩,
        ⟨0, .connecting, .ok (), .dialed (.error .notConnected)⟩]).supervisor =
      ⟨tireless, ⟨.single "a:1", [⟨0, none, some "a:1"⟩]⟩,
        .pausing (Campaign.start.failed (.connection .notConnected)) 0⟩ := rfl
  rw [Log.run, List.foldl_append]
  exact run_failing n hfirst

/-- Without a limit the attempts are not numbered 0, 1, 2 and so on for ever. -/
theorem not_forall_counted : ¬ ∀ (settings : ReconnectSettings) (source : Addresses)
    (moments : List (Moment Addresses)),
    let l := (Log.idle settings source).run moments
    l.asked.map (·.number.toNat) = List.range l.asked.length := by
  intro hcounted
  obtain ⟨moments, hlength⟩ := exists_asked UInt32.size
  have hall := hcounted tireless (.single "a:1") moments
  have hnumbers := (orderly_run tireless (Addresses.single "a:1") moments).stage.numbers
  have hnth := congrArg (·[UInt32.size]?) hall
  rw [← Function.comp_def UInt32.toNat, ← List.map_map, hnumbers, hlength] at hnth
  simp at hnth

end TupleClient.Supervisor
