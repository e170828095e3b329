import TupleClient.Proofs.Frame.Sync
import TupleClient.Proofs.Pipeline.Outcomes

/-!
What reaches the socket while a connection holds. The bytes are whole frames, each under the number
of its operation, and the frames that pass through the outbox keep their order.
-/
namespace TupleClient

namespace Pipeline

variable {κ : Type} {p q : Pipeline κ} {r : Report κ}

/-- What is done over a connection that holds: operations are submitted, and the writer takes what
waits. -/
inductive Act (κ : Type) where
  | submit (now : Nat) (s : Submission κ)
  | drain

/-- The socket takes all that is written to it. -/
def Act.event : Act κ → Event κ
  | .submit now s => .submit now none s
  | .drain => .signal (.writable none)

/-- A submission and what it met: the number it was given, the error that met submissions then, and
what its submitter was told at once. -/
structure Attempt (κ : Type) where
  sync : Nat
  submission : Submission κ
  met : Option ClientError
  told : List (κ × Outcome)

namespace Attempt

def frame (a : Attempt κ) : Except ClientError Bytes := frameOf a.submission.message a.sync

def taken? (a : Attempt κ) : Option (Nat × Bytes) :=
  match a.told, a.frame with
  | [], .ok bytes => some (a.sync, bytes)
  | _, _ => none

theorem number_of_taken? {a : Attempt κ} {x : Nat × Bytes} (h : a.taken? = some x) :
    x.1 = a.sync := by
  unfold taken? at h
  split at h
  · cases h
    rfl
  · cases h

/-- The frame is the request under the number of the operation, which has not ended. -/
structure Sends (a : Attempt κ) (x : Nat × Bytes) : Prop where
  told : a.told = []
  number : x.1 = a.sync
  encodes : ∃ m, a.submission.message = .ok m ∧ (m.withSync a.sync).sync? = some a.sync ∧
    Frame.encode (m.withSync a.sync) = .ok x.2

/-- There was no room for the bytes in time. -/
def TimedOut (a : Attempt κ) : Prop :=
  a.met = none ∧ a.frame.isOk ∧ a.told = [(a.submission.tag, .error (.timeout .write))]

/-- The operation ended at once: the connection was not usable, or the request could not be built,
or there was no room for it. -/
structure Fails (a : Attempt κ) (e : ClientError) : Prop where
  told : a.told = [(a.submission.tag, .error e)]
  reason : a.met = some e ∨ (a.met = none ∧ a.frame = .error e) ∨
    (a.TimedOut ∧ e = .timeout .write)

end Attempt

def attempt (p : Pipeline κ) (now : Nat) (s : Submission κ) : Attempt κ :=
  ⟨(p.submit now none s).2.2, s, p.cell.terminal, (p.submit now none s).2.1.outcomes⟩

def attempted (p : Pipeline κ) : Act κ → List (Attempt κ)
  | .submit now s => [p.attempt now s]
  | .drain => []

/-- All submissions on the way, the first one first. -/
def attempts (p : Pipeline κ) : List (Act κ) → List (Attempt κ)
  | [] => []
  | act :: acts => p.attempted act ++ (p.step act.event).1.attempts acts

theorem attempts_append (p : Pipeline κ) (first more : List (Act κ)) :
    p.attempts (first ++ more) =
      p.attempts first ++ (p.run (first.map Act.event)).1.attempts more := by
  induction first generalizing p with
  | nil => rfl
  | cons act first ih =>
    rw [List.cons_append, attempts, ih, attempts, List.append_assoc]
    rfl

/-- The frames that were taken, in the order of their submission. -/
def taken (p : Pipeline κ) (acts : List (Act κ)) : List (Nat × Bytes) :=
  (p.attempts acts).filterMap Attempt.taken?

def contents (frames : List (Nat × Bytes)) : Bytes := frames.flatMap Prod.snd

theorem contents_append (xs ys : List (Nat × Bytes)) :
    contents (xs ++ ys) = contents xs ++ contents ys := List.flatMap_append

def waits (p : Pipeline κ) (x : Nat × Bytes) : Bool := !p.outbox.isDirect x.2.length

/-- A connection is in use. -/
structure Attached (p : Pipeline κ) : Prop where
  socket : p.socket.isSome
  isOpen : p.outbox.isOpen = true
  numbered : p.Numbered

inductive Comes (p : Pipeline κ) (s : Submission κ) (q : Pipeline κ) (r : Report κ) : Prop where
  | unusable {e : ClientError} (hmet : p.cell.terminal = some e)
      (hr : r = .ended s.tag (.error e)) (hq : q.outbox = p.outbox)
  | unbuilt {e : ClientError} (hmet : p.cell.terminal = none)
      (hframe : frameOf s.message p.nextSync = .error e)
      (hr : r = .ended s.tag (.error e)) (hq : q.outbox = p.outbox)
  | crowded {bytes : Bytes} (hmet : p.cell.terminal = none)
      (hframe : frameOf s.message p.nextSync = .ok bytes)
      (hshort : p.outbox.isDirect bytes.length = false)
      (hfull : p.outbox.capacity < p.outbox.data.length + bytes.length)
      (hr : r = .ended s.tag (.error (.timeout .write))) (hq : q.outbox = p.outbox)
  | written {bytes : Bytes} (hmet : p.cell.terminal = none)
      (hframe : frameOf s.message p.nextSync = .ok bytes)
      (hlong : p.outbox.isDirect bytes.length = true)
      (hr : r = .writing bytes) (hq : q.outbox = p.outbox)
  | kept {bytes : Bytes} (hmet : p.cell.terminal = none)
      (hframe : frameOf s.message p.nextSync = .ok bytes)
      (hshort : p.outbox.isDirect bytes.length = false)
      (hr : r = .silent) (hq : q.outbox = { p.outbox with data := p.outbox.data ++ bytes })

theorem Comes.isOpen_eq {s : Submission κ} (h : Comes p s q r) :
    q.outbox.isOpen = p.outbox.isOpen := by
  cases h with
  | unusable _ _ hq | unbuilt _ _ _ hq | crowded _ _ _ _ _ hq | written _ _ _ _ hq
  | kept _ _ _ _ hq => rw [hq]

theorem operation?_register (hp : p.Numbered) (now : Nat) (s : Submission κ) :
    (register { p with nextSync := p.nextSync + 1 } now p.nextSync s).operation? p.nextSync =
      some ⟨s.type, s.timeout.map (now + ·), p.schemaVersion, s.tag⟩ := by
  have hfree : p.pending.lookup p.nextSync = none := by
    refine List.lookup_eq_none_iff.2 fun x hx => ?_
    have hlt : x.1 < p.nextSync := hp.lt_nextSync (x.1, x.2.tag) (List.mem_map_of_mem hx)
    exact bne_iff_ne.2 (Nat.ne_of_gt hlt)
  rw [operation?, register, List.lookup_append, hfree]
  exact List.lookup_cons_self

theorem encodes_of_frameOf {message : Except ClientError Message} {sync : Nat} {bytes : Bytes}
    (h : frameOf message sync = .ok bytes) :
    ∃ m, message = .ok m ∧ (m.withSync sync).sync? = some sync ∧
      Frame.encode (m.withSync sync) = .ok bytes := by
  cases message with
  | error e => cases h
  | ok m =>
    rw [frameOf] at h
    cases hencode : Frame.encode (m.withSync sync) with
    | error e =>
      simp only [hencode] at h
      cases h
    | ok bs =>
      simp only [hencode] at h
      cases h
      exact ⟨m, rfl, Frame.sync?_of_encode hencode, hencode⟩

theorem dispatchFrame_direct {sync : Nat} {bytes : Bytes} (hsocket : p.socket.isSome)
    (hlong : p.outbox.isDirect bytes.length = true) :
    p.dispatchFrame none sync bytes = (p, .writing bytes) := by
  obtain ⟨socket, hsocket⟩ := Option.isSome_iff_exists.1 hsocket
  rw [dispatchFrame, if_pos hlong]
  simp only [writeDirect, hsocket]

theorem dispatchFrame_short {sync : Nat} {bytes : Bytes} (hopen : p.outbox.isOpen = true)
    (hshort : p.outbox.isDirect bytes.length = false) :
    p.dispatchFrame none sync bytes =
      if p.outbox.data.length + bytes.length ≤ p.outbox.capacity then
        ({ p with outbox := { p.outbox with data := p.outbox.data ++ bytes } }, .silent)
      else p.complete sync (.error (.timeout .write)) := by
  rw [dispatchFrame, if_neg (by simp [hshort]), Outbox.push_of_open hopen]
  by_cases hroom : p.outbox.data.length + bytes.length ≤ p.outbox.capacity
  · rw [if_pos hroom, if_pos hroom]
  · rw [if_neg hroom, if_neg hroom]

theorem Attached.comes (h : p.Attached) (now : Nat) (s : Submission κ) :
    Comes p s (p.submit now none s).1 (p.submit now none s).2.1 ∧
      (p.submit now none s).1.cell = p.cell ∧ (p.submit now none s).1.socket = p.socket := by
  simp only [submit]
  cases hmet : p.cell.terminal with
  | some e => exact ⟨.unusable hmet rfl rfl, rfl, rfl⟩
  | none =>
    cases hframe : frameOf s.message p.nextSync with
    | error e => exact ⟨.unbuilt hmet hframe rfl rfl, rfl, rfl⟩
    | ok bytes =>
      have hregistered := operation?_register h.numbered now s
      simp only
      -- The table has changed; the outbox and the socket are those of before.
      generalize hq : register { p with nextSync := p.nextSync + 1 } now p.nextSync s = q
      rw [hq] at hregistered
      have houtbox : q.outbox = p.outbox := hq ▸ rfl
      have hsocket : q.socket = p.socket := hq ▸ rfl
      have hcell : q.cell = p.cell := hq ▸ rfl
      cases hdirect : p.outbox.isDirect bytes.length with
      | true =>
        rw [dispatchFrame_direct (hsocket ▸ h.socket) (houtbox ▸ hdirect)]
        exact ⟨.written hmet hframe hdirect rfl houtbox, hcell, hsocket⟩
      | false =>
        rw [dispatchFrame_short (houtbox ▸ h.isOpen) (houtbox ▸ hdirect), houtbox]
        by_cases hroom : p.outbox.data.length + bytes.length ≤ p.outbox.capacity
        · rw [if_pos hroom]
          exact ⟨.kept hmet hframe hdirect rfl rfl, hcell, hsocket⟩
        · rw [if_neg hroom, complete, hregistered]
          exact ⟨.crowded hmet hframe hdirect (Nat.lt_of_not_le hroom) rfl houtbox, hcell, hsocket⟩

theorem attached_submit (h : p.Attached) (now : Nat) (s : Submission κ) :
    (p.submit now none s).1.Attached where
  socket := by
    rw [(h.comes now s).2.2]
    exact h.socket
  isOpen := (h.comes now s).1.isOpen_eq.trans h.isOpen
  numbered := (settles_submit h.numbered now none s).numbered h.numbered

theorem drain_of_attached (h : p.Attached) :
    p.drain none = ({ p with outbox := { p.outbox with data := [] } }, .writing p.outbox.data) := by
  obtain ⟨socket, hsocket⟩ := Option.isSome_iff_exists.1 h.socket
  simp only [drain, hsocket, Outbox.take_of_open h.isOpen]
  cases hdata : p.outbox.data with
  | nil =>
    refine Prod.ext (show p = _ from ?_) rfl
    rw [← hsocket, ← hdata]
  | cons b bs => rfl

theorem waits_of_threshold (h : q.outbox.threshold = p.outbox.threshold) : q.waits = p.waits := by
  funext x
  simp only [waits, Outbox.isDirect, h]

/-- The same frames, and those that wait in the same order. -/
structure Rearranges (waits : Nat × Bytes → Bool) (xs ys : List (Nat × Bytes)) : Prop where
  perm : xs.Perm ys
  order : xs.filter waits = ys.filter waits

/-- From `p` to `q` the frames of `taken` came in. They and those that waited before are out or
wait, each of them whole. -/
structure Forwards (p : Pipeline κ) (taken : List (Nat × Bytes)) (q : Pipeline κ) (r : Report κ) :
    Prop where
  attached : q.Attached
  waits : q.waits = p.waits
  flows : ∀ before, p.outbox.data = contents before → ∃ written waiting,
    r.written = contents written ∧ q.outbox.data = contents waiting ∧
      Rearranges p.waits (before ++ taken) (written ++ waiting)

theorem Forwards.refl (h : p.Attached) : Forwards p [] p .silent where
  attached := h
  waits := rfl
  flows before hbefore := ⟨[], before, rfl, hbefore, by simp, by simp⟩

theorem Forwards.andThen {last : Pipeline κ} {s : Report κ} {taken more : List (Nat × Bytes)}
    (h : Forwards p taken q r) (g : Forwards q more last s) :
    Forwards p (taken ++ more) last (r.andThen s) where
  attached := g.attached
  waits := g.waits.trans h.waits
  flows := by
    intro before hbefore
    obtain ⟨first, between, hfirst, hbetween, hall⟩ := h.flows before hbefore
    obtain ⟨second, waiting, hsecond, hwaiting, hrest⟩ := g.flows between hbetween
    refine ⟨first ++ second, waiting, ?_, hwaiting, ?_, ?_⟩
    · rw [contents_append, ← hfirst, ← hsecond]
      rfl
    · rw [← List.append_assoc, List.append_assoc first]
      refine (hall.perm.append_right more).trans ?_
      rw [List.append_assoc]
      exact hrest.perm.append_left first
    · have horder := hrest.order
      rw [h.waits] at horder
      rw [← List.append_assoc, List.filter_append, hall.order, List.append_assoc first,
        List.filter_append, List.filter_append, List.append_assoc, ← List.filter_append, horder]

theorem Forwards.of_outbox (h : q.Attached) (hq : q.outbox = p.outbox) (hr : r.written = []) :
    Forwards p [] q r where
  attached := h
  waits := waits_of_threshold (by rw [hq])
  flows before hbefore := ⟨[], before, hr, hq ▸ hbefore, by simp, by simp⟩

theorem forwards_submit (h : p.Attached) (now : Nat) (s : Submission κ) :
    Forwards p (p.attempt now s).taken?.toList (p.submit now none s).1
      (p.submit now none s).2.1 := by
  have hattached := attached_submit h now s
  have hcomes := (h.comes now s).1
  have htaken : (p.attempt now s).taken? =
      match (p.submit now none s).2.1.outcomes, frameOf s.message p.nextSync with
      | [], .ok bytes => some (p.nextSync, bytes)
      | _, _ => none := by
    simp only [attempt, Attempt.taken?, Attempt.frame, submit_number]
  generalize (p.submit now none s).1 = q at hcomes hattached
  generalize (p.submit now none s).2.1 = r at hcomes htaken
  cases hcomes with
  | unusable hmet hr hq | unbuilt hmet hframe hr hq | crowded hmet hframe hshort hfull hr hq =>
    subst hr
    rw [htaken]
    exact .of_outbox hattached hq rfl
  | @written bytes hmet hframe hlong hr hq =>
    subst hr
    replace htaken : (p.attempt now s).taken? = some (p.nextSync, bytes) := by
      rw [htaken, hframe]
      rfl
    rw [htaken]
    refine ⟨hattached, waits_of_threshold (by rw [hq]), fun before hbefore => ?_⟩
    refine ⟨[(p.nextSync, bytes)], before, ?_, hq ▸ hbefore, List.perm_append_comm, ?_⟩
    · exact (List.append_nil bytes).symm
    · -- The long frame goes past those that wait, and is none of them.
      simp [List.filter_append, waits, hlong]
  | @kept bytes hmet hframe hshort hr hq =>
    subst hr
    replace htaken : (p.attempt now s).taken? = some (p.nextSync, bytes) := by
      rw [htaken, hframe]
      rfl
    rw [htaken]
    refine ⟨hattached, waits_of_threshold (by rw [hq]), fun before hbefore => ?_⟩
    refine ⟨[], before ++ [(p.nextSync, bytes)], rfl, ?_, .refl _, rfl⟩
    rw [hq, contents_append, ← hbefore]
    exact congrArg _ (List.append_nil bytes).symm

theorem forwards_drain (h : p.Attached) : Forwards p [] (p.drain none).1 (p.drain none).2 := by
  have hnumbered := (settles_drain p none).numbered h.numbered
  rw [drain_of_attached h] at hnumbered ⊢
  refine ⟨⟨h.socket, h.isOpen, hnumbered⟩, rfl, fun before hbefore => ?_⟩
  exact ⟨before, [], hbefore, rfl, .refl _, rfl⟩

theorem forwards_step (h : p.Attached) (act : Act κ) :
    Forwards p ((p.attempted act).filterMap Attempt.taken?) (p.step act.event).1
      (p.step act.event).2 := by
  cases act with
  | submit now s =>
    rw [attempted, List.filterMap_cons, List.filterMap_nil]
    have hsubmit := forwards_submit h now s
    cases htaken : (p.attempt now s).taken? with
    | none | some x =>
      rw [htaken] at hsubmit
      exact hsubmit
  | drain => exact forwards_drain h

theorem forwards_run (h : p.Attached) (acts : List (Act κ)) :
    Forwards p (p.taken acts) (p.run (acts.map Act.event)).1 (p.run (acts.map Act.event)).2 := by
  induction acts generalizing p with
  | nil => exact .refl h
  | cons act acts ih =>
    have hstep := forwards_step h act
    rw [taken, attempts, List.filterMap_append]
    exact hstep.andThen (ih hstep.attached)

theorem given_eq_attempts (p : Pipeline κ) (acts : List (Act κ)) :
    p.given (acts.map Act.event) = (p.attempts acts).map fun a => (a.sync, a.submission.tag) := by
  induction acts generalizing p with
  | nil => rfl
  | cons act acts ih =>
    rw [List.map_cons, given, ih, attempts, List.map_append]
    cases act <;> rfl

theorem sorted_attempts (h : p.Numbered) (acts : List (Act κ)) :
    ((p.attempts acts).map Attempt.sync).Pairwise (· < ·) := by
  have hnumbers := (settles_run h (acts.map Act.event)).numbers
  rw [given_eq_attempts, List.map_map] at hnumbers
  rw [show Attempt.sync = Prod.fst ∘ fun a : Attempt κ => (a.sync, a.submission.tag) from rfl,
    hnumbers]
  exact List.pairwise_lt_range'

theorem sends_or_fails (h : p.Attached) (now : Nat) (s : Submission κ) :
    (∃ x, (p.attempt now s).taken? = some x ∧ (p.attempt now s).Sends x) ∨
      ((p.attempt now s).taken? = none ∧ ∃ e, (p.attempt now s).Fails e) := by
  have hattempt : p.attempt now s =
      ⟨p.nextSync, s, p.cell.terminal, (p.submit now none s).2.1.outcomes⟩ := by
    rw [attempt, submit_number]
  have hcomes := (h.comes now s).1
  rw [hattempt]
  generalize (p.submit now none s).2.1 = r at hcomes
  cases hcomes with
  | @unusable e hmet hr hq =>
    subst hr
    exact .inr ⟨rfl, e, rfl, .inl hmet⟩
  | @unbuilt e hmet hframe hr hq =>
    subst hr
    exact .inr ⟨rfl, e, rfl, .inr (.inl ⟨hmet, hframe⟩)⟩
  | @crowded bytes hmet hframe hshort hfull hr hq =>
    subst hr
    have hok : (frameOf s.message p.nextSync).isOk := by
      rw [hframe]
      rfl
    exact .inr ⟨rfl, .timeout .write, rfl, .inr (.inr ⟨⟨hmet, hok, rfl⟩, rfl⟩)⟩
  | @written bytes hmet hframe hlong hr hq | @kept bytes hmet hframe hshort hr hq =>
    subst hr
    refine .inl ⟨(p.nextSync, bytes), ?_, rfl, rfl, encodes_of_frameOf hframe⟩
    simp only [Attempt.taken?, Attempt.frame, hframe]
    rfl

theorem sends_or_fails_of_mem (h : p.Attached) {acts : List (Act κ)} {a : Attempt κ}
    (ha : a ∈ p.attempts acts) :
    (∃ x, a.taken? = some x ∧ a.Sends x) ∨ (a.taken? = none ∧ ∃ e, a.Fails e) := by
  induction acts generalizing p with
  | nil => cases ha
  | cons act acts ih =>
    rcases List.mem_append.1 ha with ha | ha
    · cases act with
      | submit now s => exact List.mem_singleton.1 ha ▸ sends_or_fails h now s
      | drain => cases ha
    · exact ih (forwards_step h act).attached ha

theorem mem_taken {acts : List (Act κ)} {x : Nat × Bytes} :
    x ∈ p.taken acts ↔ ∃ a ∈ p.attempts acts, a.taken? = some x := List.mem_filterMap

theorem sorted_taken (h : p.Attached) (acts : List (Act κ)) :
    ((p.taken acts).map Prod.fst).Pairwise (· < ·) := by
  have hsorted := List.pairwise_map.1 (sorted_attempts h.numbered acts)
  refine List.pairwise_map.2 (hsorted.filterMap _ fun a b hlt x hx y hy => ?_)
  rwa [Attempt.number_of_taken? hx, Attempt.number_of_taken? hy]

theorem run_drain (h : p.Attached) (acts : List (Act κ)) :
    let q := (p.run (acts.map Act.event)).1
    let r := (p.run (acts.map Act.event)).2
    p.run ((acts ++ [Act.drain]).map Act.event) =
      ({ q with outbox := { q.outbox with data := [] } }, r.andThen (.writing q.outbox.data)) := by
  intro q r
  have hdrain : q.step Act.drain.event = _ := drain_of_attached (forwards_run h acts).attached
  rw [List.map_append, run_append]
  simp only [List.map_cons, List.map_nil, run, hdrain, Report.andThen_silent, q, r]

/-- The frames that are out and those that wait. None is out twice, and of those that pass through
the outbox an earlier one is out before a later one. -/
structure Sent (p : Pipeline κ) (acts : List (Act κ)) (written waiting : List (Nat × Bytes)) :
    Prop where
  written_eq : (p.run (acts.map Act.event)).2.written = contents written
  waiting_eq : (p.run (acts.map Act.event)).1.outbox.data = contents waiting
  perm : (written ++ waiting).Perm (p.taken acts)
  nodup : (written.map Prod.fst).Nodup
  sorted : ((written.filter p.waits).map Prod.fst).Pairwise (· < ·)

theorem exists_sent (h : p.Attached) (hempty : p.outbox.data = []) (acts : List (Act κ)) :
    ∃ written waiting, p.Sent acts written waiting := by
  obtain ⟨written, waiting, hwritten, hwaiting, hall⟩ := (forwards_run h acts).flows [] hempty
  have hsorted := sorted_taken h acts
  refine ⟨written, waiting, hwritten, hwaiting, hall.perm.symm, ?_, ?_⟩
  · have hnodup := (hall.perm.map Prod.fst).nodup_iff.1 (hsorted.imp Nat.ne_of_lt)
    rw [List.map_append] at hnodup
    exact hnodup.of_append_left
  · have horder : (written ++ waiting).filter p.waits = (p.taken acts).filter p.waits :=
      hall.order.symm
    have hsub : (written.filter p.waits).Sublist (p.taken acts) := by
      refine .trans ?_ (List.filter_sublist (p := p.waits))
      rw [← horder, List.filter_append]
      exact List.sublist_append_left ..
    exact hsorted.sublist (hsub.map Prod.fst)

/-- When the writer comes last, all that was taken is out. -/
theorem written_of_drain (h : p.Attached) (hempty : p.outbox.data = []) (acts : List (Act κ)) :
    ∃ all, (p.run ((acts ++ [Act.drain]).map Act.event)).2.written = contents all ∧
      all.Perm (p.taken acts) := by
  obtain ⟨written, waiting, hsent⟩ := exists_sent h hempty acts
  refine ⟨written ++ waiting, ?_, hsent.perm⟩
  rw [run_drain h, contents_append, ← hsent.written_eq, ← hsent.waiting_eq]
  rfl

end Pipeline
end TupleClient
