import TupleClient.Client
import TupleClient.Proofs.Handshake.Login
import TupleClient.Proofs.Retry.Losses

/-!
Runs of a client, and what goes over its line to the server on the way.
-/
namespace TupleClient.Client

variable {κ : Type}

/-- A client is told something from outside, or a worker has its turn. -/
inductive Move (κ : Type) where
  | event (now : Nat) (e : Event κ)
  | proceed (now : Nat) (w : Worker)

def act (c : Client κ) : Move κ → Turn κ
  | .event now e => c.step now e
  | .proceed now w => c.proceed now w

/-- What came from outside and what a client did, one thing after another. -/
inductive Entry (κ : Type) where
  | came (e : Event κ)
  | did (effect : Effect κ)

def Move.entries : Move κ → List (Entry κ)
  | .event _ e => [.came e]
  | .proceed _ _ => []

def history (c : Client κ) : List (Move κ) → List (Entry κ)
  | [] => []
  | m :: ms => m.entries ++ ((c.act m).effects.map .did ++ (c.act m).client.history ms)

/-- The history of a client from its making on. -/
def lifetime (s : Settings) (now : Nat) (moves : List (Move κ)) : List (Entry κ) :=
  (start (create s now)).effects.map .did ++ (start (create s now)).client.history moves

/-- Whether there is a socket: none, one that is asked for, or one that works. -/
inductive Reach where
  | away
  | calling
  | up
deriving DecidableEq

/-- What has gone over the socket since it was asked for, in both directions. -/
structure Line where
  reach : Reach
  input : Bytes
  sent : Bytes

/-- A socket is asked for, and comes or does not; what comes over it counts until it is let go. -/
def Line.next (l : Line) : Entry κ → Line
  | .did (.dial _) => ⟨.calling, [], []⟩
  | .did (.send bytes) => { l with sent := l.sent ++ bytes }
  | .did .hangUp => { l with reach := .away }
  | .came (.dialed (.ok ())) => if l.reach = .calling then { l with reach := .up } else l
  | .came (.dialed (.error _)) => if l.reach = .calling then { l with reach := .away } else l
  | .came (.received bytes _) => if l.reach = .up then { l with input := l.input ++ bytes } else l
  | _ => l

def Line.after (l : Line) (entries : List (Entry κ)) : Line := entries.foldl Line.next l

def Line.none : Line := ⟨.away, [], []⟩

variable {credentials : Credentials} {limit : Nat} {l : Line} {entries more : List (Entry κ)}

theorem Line.after_append (l : Line) (entries more : List (Entry κ)) :
    l.after (entries ++ more) = (l.after entries).after more := List.foldl_append

/-- A socket may be written to: nothing was, and this is the login for the greeting that came; or
the login was, and the reply to it was a success. -/
structure Admitted (credentials : Credentials) (limit : Nat) (l : Line) (bytes : Bytes) : Prop where
  up : l.reach = .up
  login : l.sent = [] → ∃ g, Handshake.Greets l.input g ∧
    Frame.encode (Handshake.login credentials g) = .ok bytes
  later : l.sent ≠ [] → ∃ g frame more m rest, Handshake.Greets l.input g ∧
    Frame.encode (Handshake.login credentials g) = .ok frame ∧ l.sent = frame ++ more ∧
    Frame.receive limit (l.input.drop greetingLength) = .message m rest ∧ m.sync?.isSome ∧
    m.code? = some 0

/-- All that is sent in a history may be sent. -/
def Proper (credentials : Credentials) (limit : Nat) (l : Line) (entries : List (Entry κ)) : Prop :=
  ∀ before bytes after, entries = before ++ .did (.send bytes) :: after →
    Admitted credentials limit (l.after before) bytes

theorem proper_nil : Proper credentials limit l ([] : List (Entry κ)) := by
  intro before bytes after h
  simp at h

theorem Proper.append (h : Proper credentials limit l entries)
    (g : Proper credentials limit (l.after entries) more) :
    Proper credentials limit l (entries ++ more) := by
  intro before bytes after hsplit
  rcases List.append_eq_append_iff.1 hsplit with ⟨mid, hbefore, hmore⟩ | ⟨mid, hentries, hrest⟩
  · rw [hbefore, Line.after_append]
    exact g mid bytes after hmore
  · cases mid with
    | nil =>
      rw [List.append_nil] at hentries
      rw [← hentries]
      exact g [] bytes after hrest.symm
    | cons x mid =>
      obtain ⟨rfl, -⟩ := List.cons.inj hrest
      exact h before bytes mid hentries

theorem proper_single {x : Entry κ} (h : ∀ bytes, x ≠ .did (.send bytes)) :
    Proper credentials limit l [x] := by
  intro before bytes after hsplit
  have hmem : Entry.did (.send bytes) ∈ [x] := hsplit ▸ by simp
  exact absurd (List.mem_singleton.1 hmem).symm (h bytes)

theorem proper_send {bytes : Bytes} (h : Admitted credentials limit l bytes) :
    Proper credentials limit l [(.did (.send bytes) : Entry κ)] := by
  intro before sent after hsplit
  cases before with
  | nil =>
    obtain ⟨hsame, -⟩ := List.cons.inj hsplit
    cases hsame
    exact h
  | cons x before => simp at hsplit

end TupleClient.Client
