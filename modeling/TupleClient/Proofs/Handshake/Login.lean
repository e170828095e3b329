import TupleClient.Handshake
import TupleClient.Proofs.Frame.RoundTrip

/-!
A handshake with credentials, whatever the server sends and in whatever pieces it comes: what is
written, and how it ends.
-/
namespace TupleClient.Handshake

/-- What a login says: the name, and the proof for the salt of this greeting. -/
def login (c : Credentials) (g : Greeting) : Message where
  header := (Fields.empty.insert Message.codeKey (.ofNat RequestType.auth.code)).insert
    Message.syncKey (.ofNat 0)
  body := (Fields.empty.insert Request.userKey (.text c.user)).insert Request.tupleKey
    (.array [.text "chap-sha1", .binary (Greeting.proof g.salt c.password)])

variable {c : Credentials} {limit : Nat} {g : Greeting} {s : Handshake}
  {input written frame bs : Bytes} {result : Result}

theorem authFrame_eq (c : Credentials) (g : Greeting) :
    authFrame c g = (Frame.encode (login c g)).mapError .codec := by
  have hmessage : (Request.auth c.user mechanism (Greeting.proof g.salt c.password)).message none =
      .ok ⟨Fields.empty.insert Message.codeKey (.ofNat RequestType.auth.code), (login c g).body⟩ :=
    rfl
  have hlogin : Message.withSync
      ⟨Fields.empty.insert Message.codeKey (.ofNat RequestType.auth.code), (login c g).body⟩ 0 =
        login c g := rfl
  unfold authFrame
  simp only [hmessage, bind, Except.bind, hlogin]
  cases Frame.encode (login c g) <;> rfl

theorem authFrame_eq_ok_iff :
    authFrame c g = .ok frame ↔ Frame.encode (login c g) = .ok frame := by
  rw [authFrame_eq]
  cases Frame.encode (login c g) <;> simp [Except.mapError]

theorem authFrame_ne_nil (h : authFrame c g = .ok frame) : frame ≠ [] := by
  obtain ⟨header, body, -, -, -, rfl⟩ := Frame.encode_eq_ok_iff.1 (authFrame_eq_ok_iff.1 h)
  simp

theorem exists_textHead {n : Nat} (h : n ≤ maxUnsigned32) :
    ∃ head, Wire.textHead n = .ok head ∧ head.length ≤ 5 := by
  unfold Wire.textHead Wire.longHead
  repeat' split
  all_goals exact ⟨_, rfl, by simp⟩

theorem length_proof (salt : Bytes) (password : String) :
    (Greeting.proof salt password).length = Greeting.proofLength := by
  simp [Greeting.proof, Digest.Sha1.length_digest, Greeting.proofLength]

theorem exists_encode_proof (salt : Bytes) (password : String) :
    ∃ bytes, Wire.encode (.array [.text "chap-sha1", .binary (Greeting.proof salt password)]) =
      .ok bytes ∧ bytes.length = 33 := by
  have hproof := length_proof salt password
  have hname : Wire.encode (.text "chap-sha1") =
      .ok [0xa9, 0x63, 0x68, 0x61, 0x70, 0x2d, 0x73, 0x68, 0x61, 0x31] := by decide +kernel
  have hbinary : Wire.encode (.binary (Greeting.proof salt password)) =
      .ok (0xc4 :: 20 :: Greeting.proof salt password) := by
    rw [Wire.encode_binary, hproof]
    rfl
  have hitems : Wire.encode (.array [.text "chap-sha1", .binary (Greeting.proof salt password)]) =
      .ok ([0x92] ++ ([0xa9, 0x63, 0x68, 0x61, 0x70, 0x2d, 0x73, 0x68, 0x61, 0x31] ++
        ((0xc4 :: 20 :: Greeting.proof salt password) ++ []))) := by
    rw [Wire.encode_array]
    simp only [Wire.encodeItems, hname, hbinary, bind, Except.bind]
    rfl
  exact ⟨_, hitems, by simp [hproof, Greeting.proofLength]⟩

theorem exists_login (g : Greeting) (hname : c.user.utf8ByteSize + 46 ≤ maxUnsigned32) :
    ∃ frame, Frame.encode (login c g) = .ok frame := by
  obtain ⟨head, hhead, hshort⟩ := exists_textHead (n := c.user.utf8ByteSize) (by omega)
  obtain ⟨proof, hproof, hlength⟩ := exists_encode_proof g.salt c.password
  have huser : Wire.encode (.text c.user) = .ok (head ++ Bytes.ofText c.user) := by
    rw [Wire.encode_text, hhead]
    rfl
  have hcode : Wire.encode (.ofNat RequestType.auth.code) = .ok [7] := by decide +kernel
  have hsync : Wire.encode (.ofNat 0) = .ok [0] := by decide +kernel
  have hheader : (login c g).header.Written [0x82, 0, 7, 1, 0] :=
    ⟨_, .cons hcode (.cons hsync .nil), rfl⟩
  have hbody : (login c g).body.Written
      ([0x82] ++ ([0x21] ++ proof ++ ([0x23] ++ (head ++ Bytes.ofText c.user) ++ []))) :=
    ⟨_, .cons hproof (.cons huser .nil), rfl⟩
  refine ⟨_, Frame.encode_eq_ok_iff.2 ⟨_, _, hheader, hbody, ?_, rfl⟩⟩
  have htext : (Bytes.ofText c.user).length = c.user.utf8ByteSize := by
    simp [Bytes.ofText]
  simp only [List.length_append, List.length_cons, List.length_nil, hlength, htext]
  omega

def Greets (input : Bytes) (g : Greeting) : Prop :=
  Greeting.parse (input.take greetingLength) = .ok g

theorem Greets.length_le (h : Greets input g) : greetingLength ≤ input.length := by
  by_contra hshort
  have hlength : (input.take greetingLength).length < greetingLength := by
    rw [List.length_take]
    omega
  unfold Greets Greeting.parse at h
  rw [if_pos hlength] at h
  cases h

theorem Greets.more (h : Greets input g) (bs : Bytes) : Greets (input ++ bs) g := by
  unfold Greets
  rw [List.take_append_of_le_length h.length_le]
  exact h

theorem Greets.unique {other : Greeting} (h : Greets input g) (hother : Greets input other) :
    g = other := Except.ok.inj (h.symm.trans hother)

theorem receiveGreeting_eq_none (h : input.length < greetingLength) :
    receiveGreeting input = none := by
  rw [receiveGreeting, Bytes.split?_eq, if_neg (Nat.not_le.2 h)]
  rfl

theorem receiveGreeting_eq_some (h : greetingLength ≤ input.length) :
    receiveGreeting input =
      some (Greeting.parse (input.take greetingLength), input.drop greetingLength) := by
  rw [receiveGreeting, Bytes.split?_eq, if_pos h]
  rfl

/-- Nothing has come to an end: of the input the greeting is not there in full, or the login is
written and the reply to it is not there in full. -/
inductive Shaking (c : Credentials) (limit : Nat) : Handshake → Bytes → Bytes → Prop where
  | greeting {input : Bytes} (h : input.length < greetingLength) :
      Shaking c limit ⟨some c, limit, .greeting, input⟩ input []
  | reply {input frame : Bytes} {g : Greeting} (hg : Greets input g)
      (hframe : authFrame c g = .ok frame)
      (hreply : Frame.receive limit (input.drop greetingLength) = .incomplete) :
      Shaking c limit ⟨some c, limit, .reply g, input.drop greetingLength⟩ input frame

/-- The end of a handshake, after the input and with the bytes that are written by then. More of
the input may have come in since. -/
inductive Ended (c : Credentials) (limit : Nat) : Bytes → Bytes → Result → Prop where
  | malformedGreeting {input : Bytes} {e : HandshakeError} (h : greetingLength ≤ input.length)
      (he : Greeting.parse (input.take greetingLength) = .error e) :
      Ended c limit input [] (.failed (.handshake e))
  | tooLong {input : Bytes} {g : Greeting} {e : ClientError} (hg : Greets input g)
      (he : authFrame c g = .error e) : Ended c limit input [] (.failed e)
  | malformedReply {input frame rest : Bytes} {g : Greeting} {e : Wire.CodecError}
      (hg : Greets input g) (hframe : authFrame c g = .ok frame)
      (hreply : Frame.receive limit (input.drop greetingLength) = .malformed e rest) :
      Ended c limit input frame (.failed (violation e))
  | refused {input frame rest : Bytes} {g : Greeting} {m : Message} {e : ClientError}
      (hg : Greets input g) (hframe : authFrame c g = .ok frame)
      (hreply : Frame.receive limit (input.drop greetingLength) = .message m rest)
      (hm : judge m = .error e) : Ended c limit input frame (.failed e)
  | accepted {input frame rest more : Bytes} {g : Greeting} {m : Message} (hg : Greets input g)
      (hframe : authFrame c g = .ok frame)
      (hreply : Frame.receive limit (input.drop greetingLength) = .message m (rest ++ more))
      (hm : judge m = .ok ()) : Ended c limit input frame (.established g rest)

theorem Ended.more (h : Ended c limit input written result) (bs : Bytes) :
    Ended c limit (input ++ bs) written result := by
  have hdrop {g : Greeting} (hg : Greets input g) :
      (input ++ bs).drop greetingLength = input.drop greetingLength ++ bs :=
    List.drop_append_of_le_length hg.length_le
  cases h with
  | malformedGreeting h he =>
    refine .malformedGreeting (by rw [List.length_append]; omega) ?_
    rwa [List.take_append_of_le_length h]
  | tooLong hg he => exact .tooLong (hg.more bs) he
  | malformedReply hg hframe hreply =>
    have hread := Frame.receive_malformed_more hreply bs
    rw [← hdrop hg] at hread
    exact .malformedReply (hg.more bs) hframe hread
  | refused hg hframe hreply hm =>
    have hread := Frame.receive_message_more hreply bs
    rw [← hdrop hg] at hread
    exact .refused (hg.more bs) hframe hread hm
  | accepted hg hframe hreply hm =>
    have hread := Frame.receive_message_more hreply bs
    rw [← hdrop hg, List.append_assoc] at hread
    exact .accepted (hg.more bs) hframe hread hm

def Stands (c : Credentials) (limit : Nat) (input written : Bytes) : Handshake ⊕ Result → Prop
  | .inl h => Shaking c limit h input written
  | .inr result => Ended c limit input written result

@[simp] theorem stands_inl :
    Stands c limit input written (.inl s) ↔ Shaking c limit s input written := .rfl

@[simp] theorem stands_inr :
    Stands c limit input written (.inr result) ↔ Ended c limit input written result := .rfl

theorem stands_readReply (limit : Nat) (phase : Phase) (hg : Greets input g)
    (hframe : authFrame c g = .ok frame) :
    Stands c limit input frame
      (readReply ⟨some c, limit, phase, input.drop greetingLength⟩ g) := by
  unfold readReply
  cases hreply : Frame.receive limit (input.drop greetingLength) with
  | incomplete => exact .reply hg hframe hreply
  | malformed e rest => exact .malformedReply hg hframe hreply
  | message m rest =>
    cases hm : judge m with
    | ok =>
      have hread : Frame.receive limit (input.drop greetingLength) = .message m (rest ++ []) := by
        rw [hreply, List.append_nil]
      simpa [hm] using Ended.accepted hg hframe hread hm
    | error e => simpa [hm] using Ended.refused hg hframe hreply hm

theorem stands_receive (h : Shaking c limit s input written) (bs : Bytes) :
    Stands c limit (input ++ bs) (written ++ (receive s bs).1) (receive s bs).2 := by
  cases h with
  | @reply _ _ g hg hframe hreply =>
    rw [receive, advance]
    have hstands := stands_readReply limit (.reply g) (hg.more bs) hframe
    rw [List.drop_append_of_le_length hg.length_le] at hstands
    simpa using hstands
  | greeting hshort =>
    rw [receive, advance]
    by_cases hlength : greetingLength ≤ (input ++ bs).length
    · simp only [receiveGreeting_eq_some hlength]
      cases hparse : Greeting.parse ((input ++ bs).take greetingLength) with
      | error e => exact .malformedGreeting hlength hparse
      | ok g =>
        cases hframe : authFrame c g with
        | error e => simpa [hframe] using Ended.tooLong hparse hframe
        | ok frame => simpa [hframe] using stands_readReply limit _ hparse hframe
    · simp only [receiveGreeting_eq_none (Nat.not_le.1 hlength)]
      exact .greeting (Nat.not_le.1 hlength)

theorem receive_written (h : Shaking c limit s input written) (bs : Bytes) :
    (receive s bs).1 = [] ∨ written = [] := by
  cases h with
  | greeting hshort => exact .inr rfl
  | reply hg hframe hreply => exact .inl rfl

/-- A handshake that is told the input piece by piece until it ends: all that it writes, and what
has become of it. -/
def talk (s : Handshake) : List Bytes → Bytes × (Handshake ⊕ Result)
  | [] => ([], .inl s)
  | bs :: pieces =>
    match s.receive bs with
    | (out, .inl next) => (out ++ (next.talk pieces).1, (next.talk pieces).2)
    | (out, .inr result) => (out, .inr result)

theorem stands_talk (h : Shaking c limit s input written) (pieces : List Bytes) :
    Stands c limit (input ++ pieces.flatten) (written ++ (talk s pieces).1)
      (talk s pieces).2 := by
  induction pieces generalizing s input written with
  | nil => simpa [talk] using h
  | cons bs pieces ih =>
    have hstep := stands_receive h bs
    rw [talk, List.flatten_cons, ← List.append_assoc]
    generalize receive _ bs = step at hstep ⊢
    obtain ⟨out, next | result⟩ := step
    · rw [← List.append_assoc]
      exact ih hstep
    · exact Ended.more hstep pieces.flatten

theorem judge_eq_ok_iff {m : Message} :
    judge m = .ok () ↔ m.sync?.isSome ∧ m.code? = some 0 := by
  unfold judge Response.ofMessage
  cases m.sync? with
  | none => simp
  | some sync =>
    rcases m.code? with _ | _ | status <;> simp

theorem judge_of_status {m : Message} {status : Nat} (hsync : m.sync?.isSome)
    (hcode : m.code? = some status) (hstatus : status ≠ 0) :
    judge m = .error (.handshake (.authFailed (Response.clearErrorFlag status)
      (Response.serverError status m.body).message)) := by
  obtain ⟨sync, hsync⟩ := Option.isSome_iff_exists.1 hsync
  obtain ⟨status, rfl⟩ := Nat.exists_eq_succ_of_ne_zero hstatus
  simp [judge, Response.ofMessage, hsync, hcode, Response.serverError]

/-- What is written in a handshake, and how it ends. All of it is settled by the input: a greeting
that is in order, and then one reply. -/
structure Opened (c : Credentials) (limit : Nat) (input written : Bytes)
    (last : Handshake ⊕ Result) : Prop where
  atMost : written = [] ∨ ∃ g, Greets input g ∧ Frame.encode (login c g) = .ok written
  once : ∀ g, Greets input g → c.user.utf8ByteSize + 46 ≤ maxUnsigned32 →
    Frame.encode (login c g) = .ok written
  tooLong : ∀ g e, Greets input g → Frame.encode (login c g) = .error e →
    written = [] ∧ last = .inr (.failed (.codec e))
  accepted : (∃ g rest, last = .inr (.established g rest)) ↔
    ∃ g m rest, Greets input g ∧ Frame.encode (login c g) = .ok written ∧
      Frame.receive limit (input.drop greetingLength) = .message m rest ∧ m.sync?.isSome ∧
      m.code? = some 0
  refused : ∀ g m rest status, Greets input g → Frame.encode (login c g) = .ok written →
    Frame.receive limit (input.drop greetingLength) = .message m rest → m.sync?.isSome →
    m.code? = some status → status ≠ 0 →
    last = .inr (.failed (.handshake (.authFailed (Response.clearErrorFlag status)
      (Response.serverError status m.body).message)))
  hungUp : ∀ s, last = .inl s → s.hungUp = .failed .endOfInput ∧
    ∀ g, Greets input g → Frame.receive limit (input.drop greetingLength) = .incomplete

variable {last : Handshake ⊕ Result}

theorem Stands.login_or_nothing (h : Stands c limit input written last) :
    (written = [] ∧ ∀ g, Greets input g → ∃ e, authFrame c g = .error e) ∨
      ∃ g, Greets input g ∧ authFrame c g = .ok written := by
  rcases last with s | result
  · cases h with
    | greeting hshort =>
      exact .inl ⟨rfl, fun g hg => absurd hg.length_le (Nat.not_le.2 hshort)⟩
    | reply hg hframe _ => exact .inr ⟨_, hg, hframe⟩
  · cases h with
    | malformedGreeting _ he =>
      refine .inl ⟨rfl, fun g hg => ?_⟩
      simp [Greets, he] at hg
    | tooLong hg he => exact .inl ⟨rfl, fun g hother => ⟨_, hg.unique hother ▸ he⟩⟩
    | malformedReply hg hframe _ => exact .inr ⟨_, hg, hframe⟩
    | refused hg hframe _ _ => exact .inr ⟨_, hg, hframe⟩
    | accepted hg hframe _ _ => exact .inr ⟨_, hg, hframe⟩

theorem Stands.replied {m : Message} {rest : Bytes} (h : Stands c limit input written last)
    (hg : Greets input g) (hframe : authFrame c g = .ok written)
    (hreply : Frame.receive limit (input.drop greetingLength) = .message m rest) :
    (judge m = .ok () → ∃ rest, last = .inr (.established g rest)) ∧
      ∀ e, judge m = .error e → last = .inr (.failed e) := by
  rcases last with s | result
  · cases h with
    | greeting hshort => exact absurd hg.length_le (Nat.not_le.2 hshort)
    | reply _ _ hincomplete => simp [hreply] at hincomplete
  · cases h with
    | malformedGreeting _ he => simp [Greets, he] at hg
    | tooLong hother he => simp [hother.unique hg ▸ he] at hframe
    | malformedReply _ _ hmalformed => simp [hreply] at hmalformed
    | refused _ _ hother hm =>
      obtain ⟨rfl, rfl⟩ : m = _ ∧ rest = _ := by simpa [hreply] using hother
      simp [hm]
    | accepted hgreets _ hother hm =>
      obtain ⟨rfl, rfl⟩ : m = _ ∧ rest = _ := by simpa [hreply] using hother
      obtain rfl := hgreets.unique hg
      simp [hm]

theorem Stands.unwritten {g : Greeting} {e : Wire.CodecError}
    (h : Stands c limit input written last)
    (hg : Greets input g) (herror : authFrame c g = .error (.codec e)) :
    written = [] ∧ last = .inr (.failed (.codec e)) := by
  have hwritten : written = [] := by
    rcases h.login_or_nothing with ⟨hnone, -⟩ | ⟨other, hother, hframe⟩
    · exact hnone
    · obtain rfl := hother.unique hg
      simp [herror] at hframe
  refine ⟨hwritten, ?_⟩
  rcases last with s | result
  · cases h with
    | greeting hshort => exact absurd hg.length_le (Nat.not_le.2 hshort)
    | reply hother hframe _ => simp [hother.unique hg ▸ herror] at hframe
  · cases h with
    | malformedGreeting _ hparse => simp [Greets, hparse] at hg
    | tooLong hother hother' =>
      obtain rfl := hother.unique hg
      rw [herror] at hother'
      rw [Except.error.inj hother']
    | malformedReply hother hframe _ => simp [hother.unique hg ▸ herror] at hframe
    | refused hother hframe _ _ => simp [hother.unique hg ▸ herror] at hframe
    | accepted hother hframe _ _ => simp [hother.unique hg ▸ herror] at hframe

theorem opened_of_stands (h : Stands c limit input written last) :
    Opened c limit input written last where
  atMost := by
    rcases h.login_or_nothing with ⟨hnone, -⟩ | ⟨g, hg, hframe⟩
    · exact .inl hnone
    · exact .inr ⟨g, hg, authFrame_eq_ok_iff.1 hframe⟩
  once := by
    intro g hg hname
    obtain ⟨frame, hfits⟩ := exists_login g hname
    rcases h.login_or_nothing with ⟨-, herror⟩ | ⟨other, hother, hframe⟩
    · obtain ⟨e, he⟩ := herror g hg
      simp [authFrame_eq_ok_iff.2 hfits] at he
    · obtain rfl := hother.unique hg
      exact authFrame_eq_ok_iff.1 hframe
  tooLong := by
    intro g e hg he
    refine h.unwritten hg ?_
    rw [authFrame_eq, he]
    rfl
  accepted := by
    constructor
    · rintro ⟨g, rest, rfl⟩
      cases h with
      | accepted hg hframe hreply hm =>
        exact ⟨g, _, _, hg, authFrame_eq_ok_iff.1 hframe, hreply, judge_eq_ok_iff.1 hm⟩
    · rintro ⟨g, m, rest, hg, hframe, hreply, hm⟩
      obtain ⟨rest, hlast⟩ :=
        (h.replied hg (authFrame_eq_ok_iff.2 hframe) hreply).1 (judge_eq_ok_iff.2 hm)
      exact ⟨g, rest, hlast⟩
  refused := by
    intro g m rest status hg hframe hreply hsync hcode hstatus
    exact (h.replied hg (authFrame_eq_ok_iff.2 hframe) hreply).2 _
      (judge_of_status hsync hcode hstatus)
  hungUp := by
    rintro s rfl
    refine ⟨rfl, fun g hg => ?_⟩
    cases h with
    | greeting hshort => exact absurd hg.length_le (Nat.not_le.2 hshort)
    | reply _ _ hreply => exact hreply

end TupleClient.Handshake
