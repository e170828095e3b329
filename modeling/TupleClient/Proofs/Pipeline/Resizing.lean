import TupleClient.Proofs.Pipeline.Sending

/-!
The size of the outbox and the share of it that a frame may take have a say in the order of the
frames, and in nothing else that reaches the socket.
-/
namespace TupleClient.Pipeline

variable {κ : Type} {p q : Pipeline κ}

/-- The frame of a submission against which nothing stands but the room for it. -/
def due (p : Pipeline κ) (s : Submission κ) : Option (Nat × Bytes) :=
  match p.cell.terminal, frameOf s.message p.nextSync with
  | none, .ok bytes => some (p.nextSync, bytes)
  | _, _ => none

theorem taken?_eq_due (h : p.Attached) {now : Nat} {s : Submission κ}
    (hroom : ¬(p.attempt now s).TimedOut) : (p.attempt now s).taken? = p.due s := by
  have hcomes := (h.comes now s).1
  simp only [attempt, submit_number, Attempt.TimedOut, Attempt.taken?, Attempt.frame, due]
    at hroom ⊢
  generalize (p.submit now none s).2.1 = r at hcomes hroom
  cases hcomes with
  | unusable hmet hr hq =>
    rw [hmet, hr]
    rfl
  | unbuilt hmet hframe hr hq =>
    rw [hmet, hframe, hr]
    rfl
  | crowded hmet hframe hshort hfull hr hq =>
    refine absurd ⟨hmet, ?_, by rw [hr]; rfl⟩ hroom
    rw [hframe]
    rfl
  | written hmet hframe hlong hr hq | kept hmet hframe hshort hr hq =>
    rw [hmet, hframe, hr]
    rfl

structure Alike (p q : Pipeline κ) : Prop where
  cell : q.cell = p.cell
  nextSync : q.nextSync = p.nextSync

theorem Alike.due (h : Alike p q) (s : Submission κ) : q.due s = p.due s := by
  rw [Pipeline.due, Pipeline.due, h.cell, h.nextSync]

theorem cell_step_of_attached (h : p.Attached) (act : Act κ) :
    (p.step act.event).1.cell = p.cell := by
  cases act with
  | submit now s => exact (h.comes now s).2.1
  | drain => exact congrArg (·.1.cell) (drain_of_attached h)

theorem nextSync_step_of_attached (h : p.Attached) (act : Act κ) :
    (p.step act.event).1.nextSync = p.nextSync + (p.attempted act).length := by
  rw [(settles_step h.numbered act.event).nextSync]
  cases act <;> rfl

theorem Alike.step (h : Alike p q) (hp : p.Attached) (hq : q.Attached) (act : Act κ) :
    Alike (p.step act.event).1 (q.step act.event).1 where
  cell := by rw [cell_step_of_attached hp, cell_step_of_attached hq, h.cell]
  nextSync := by
    rw [nextSync_step_of_attached hp, nextSync_step_of_attached hq, h.nextSync]
    cases act <;> rfl

/-- Where there is room for every frame, the room has no say in which frames are taken. -/
theorem Alike.taken (h : Alike p q) (hp : p.Attached) (hq : q.Attached) {acts : List (Act κ)}
    (hproom : ∀ a ∈ p.attempts acts, ¬a.TimedOut) (hqroom : ∀ a ∈ q.attempts acts, ¬a.TimedOut) :
    q.taken acts = p.taken acts := by
  induction acts generalizing p q with
  | nil => rfl
  | cons act acts ih =>
    rw [attempts, List.forall_mem_append] at hproom hqroom
    have hrest := ih (h.step hp hq act) (forwards_step hp act).attached
      (forwards_step hq act).attached hproom.2 hqroom.2
    rw [Pipeline.taken, Pipeline.taken] at hrest ⊢
    rw [attempts, attempts, List.filterMap_append, List.filterMap_append, hrest]
    cases act with
    | submit now s =>
      have hpdue := taken?_eq_due hp (hproom.1 _ List.mem_cons_self)
      have hqdue := taken?_eq_due hq (hqroom.1 _ List.mem_cons_self)
      simp only [attempted, List.filterMap_cons, hpdue, hqdue, h.due]
    | drain => rfl

/-- The writer takes each frame before the next one comes. -/
def promptly (subs : List (Nat × Submission κ)) : List (Act κ) :=
  subs.flatMap fun x => [.submit x.1 x.2, .drain]

theorem promptly_cons (now : Nat) (s : Submission κ) (subs : List (Nat × Submission κ)) :
    promptly ((now, s) :: subs) = [Act.submit now s] ++ [Act.drain] ++ promptly subs := rfl

theorem not_timedOut_of_empty (h : p.Attached) (hempty : p.outbox.data = []) (now : Nat)
    (s : Submission κ) : ¬(p.attempt now s).TimedOut := by
  rintro ⟨hmet, hframe, htold⟩
  have hcomes := (h.comes now s).1
  simp only [attempt, Attempt.frame, submit_number] at hmet hframe htold
  generalize (p.submit now none s).2.1 = r at hcomes htold
  cases hcomes with
  | unusable hterminal hr hq =>
    rw [hterminal] at hmet
    cases hmet
  | unbuilt _ hbuilt hr hq =>
    rw [hbuilt] at hframe
    cases hframe
  | crowded _ _ hshort hfull hr hq =>
    have hthreshold := p.outbox.threshold_le
    rw [hempty, List.length_nil] at hfull
    simp only [Outbox.isDirect, decide_eq_false_iff_not] at hshort
    omega
  | written _ _ _ hr hq | kept _ _ _ hr hq =>
    rw [hr] at htold
    cases htold

theorem bytes_of_empty (h : p.Attached) (hempty : p.outbox.data = []) (now : Nat)
    (s : Submission κ) :
    (p.submit now none s).2.1.written ++ (p.submit now none s).1.outbox.data =
      contents (p.due s).toList := by
  obtain ⟨written, waiting, hwritten, hwaiting, hall⟩ := (forwards_submit h now s).flows [] hempty
  rw [hwritten, hwaiting, ← contents_append]
  rw [taken?_eq_due h (not_timedOut_of_empty h hempty now s)] at hall
  -- There is one frame at most, and no order of one frame but its own.
  have hsame : written ++ waiting = (p.due s).toList := by
    cases hdue : p.due s with
    | none =>
      rw [hdue] at hall
      exact List.perm_nil.1 hall.perm.symm
    | some x =>
      rw [hdue] at hall
      exact List.perm_singleton.1 hall.perm.symm
  rw [hsame]

theorem Alike.run (h : Alike p q) (hp : p.Attached) (hq : q.Attached) (acts : List (Act κ)) :
    Alike (p.run (acts.map Act.event)).1 (q.run (acts.map Act.event)).1 := by
  induction acts generalizing p q with
  | nil => exact h
  | cons act acts ih =>
    exact ih (h.step hp hq act) (forwards_step hp act).attached (forwards_step hq act).attached

theorem written_submit_drain (h : p.Attached) (hempty : p.outbox.data = []) (now : Nat)
    (s : Submission κ) :
    let q := p.run (([Act.submit now s] ++ [Act.drain]).map Act.event)
    q.2.written = contents (p.due s).toList ∧ q.1.outbox.data = [] := by
  rw [run_drain h]
  refine ⟨?_, rfl⟩
  rw [← bytes_of_empty h hempty now s]
  exact congrArg (· ++ _) (List.append_nil _)

theorem not_timedOut_promptly (h : p.Attached) (hempty : p.outbox.data = [])
    (subs : List (Nat × Submission κ)) :
    ∀ a ∈ p.attempts (promptly subs), ¬a.TimedOut := by
  induction subs generalizing p with
  | nil => exact List.forall_mem_nil _
  | cons x subs ih =>
    obtain ⟨now, s⟩ := x
    have hfirst := written_submit_drain h hempty now s
    have hrest := ih (forwards_run h ([Act.submit now s] ++ [Act.drain])).attached hfirst.2
    rw [promptly_cons, attempts_append]
    refine List.forall_mem_append.2 ⟨?_, hrest⟩
    exact List.forall_mem_singleton.2 (not_timedOut_of_empty h hempty now s)

theorem written_promptly (h : Alike p q) (hp : p.Attached) (hq : q.Attached)
    (hpempty : p.outbox.data = []) (hqempty : q.outbox.data = [])
    (subs : List (Nat × Submission κ)) :
    (q.run ((promptly subs).map Act.event)).2.written =
      (p.run ((promptly subs).map Act.event)).2.written := by
  induction subs generalizing p q with
  | nil => rfl
  | cons x subs ih =>
    obtain ⟨now, s⟩ := x
    have hpfirst := written_submit_drain hp hpempty now s
    have hqfirst := written_submit_drain hq hqempty now s
    have hrest := ih (h.run hp hq ([Act.submit now s] ++ [Act.drain])) (forwards_run hp _).attached
      (forwards_run hq _).attached hpfirst.2 hqfirst.2
    rw [promptly_cons, List.map_append, run_append, run_append]
    simp only [Report.andThen, hrest, hpfirst.1, hqfirst.1, h.due]

/-- The same connection over an empty outbox of another size. -/
def resized (p : Pipeline κ) (size : Nat) (factor : UInt64) : Pipeline κ :=
  { p with
    settings := { p.settings with bufferSize := size, directFactor := factor }
    outbox := (Outbox.create size factor).opened }

theorem attached_resized (h : p.Attached) (size : Nat) (factor : UInt64) :
    (p.resized size factor).Attached where
  socket := h.socket
  isOpen := rfl
  numbered := ⟨h.numbered.sorted, h.numbered.lt_nextSync⟩

/-- Over a connection that holds whole frames go out, each of them a request under the number of its
operation and none of them twice, and those that pass through the outbox in the order in which they
were submitted. A submission that met an error, could not be built or found no room has no frame;
every other one has, and its frame is out when the writer comes last. Where there is room for every
frame, the size of the outbox and the share of it that a frame may take change nothing but the order
of the frames. If the writer takes each one before the next one comes there is room, and the order
stays as well. -/
theorem frames_of_connection (p : Pipeline κ) (h : p.Attached) (hempty : p.outbox.data = [])
    (acts : List (Act κ)) :
    (∃ written waiting, p.Sent acts written waiting) ∧
      (∀ x ∈ p.taken acts, ∃ a ∈ p.attempts acts, a.Sends x) ∧
      (∀ a ∈ p.attempts acts, (∃ x ∈ p.taken acts, a.Sends x) ∨
        ((∃ e, a.Fails e) ∧ ∀ x ∈ p.taken acts, x.1 ≠ a.sync)) ∧
      (∃ all, (p.run ((acts ++ [Act.drain]).map Act.event)).2.written = contents all ∧
        all.Perm (p.taken acts)) ∧
      ∀ size factor,
        let q := p.resized size factor
        ((∀ a ∈ p.attempts acts, ¬a.TimedOut) → (∀ a ∈ q.attempts acts, ¬a.TimedOut) →
          ∃ all other,
            (p.run ((acts ++ [Act.drain]).map Act.event)).2.written = contents all ∧
              (q.run ((acts ++ [Act.drain]).map Act.event)).2.written = contents other ∧
              other.Perm all) ∧
          ∀ subs, (∀ a ∈ p.attempts (promptly subs) ++ q.attempts (promptly subs), ¬a.TimedOut) ∧
            (q.run ((promptly subs).map Act.event)).2.written =
              (p.run ((promptly subs).map Act.event)).2.written := by
  refine ⟨exists_sent h hempty acts, ?_, ?_, written_of_drain h hempty acts, ?_⟩
  · intro x hx
    obtain ⟨a, ha, htaken⟩ := mem_taken.1 hx
    rcases sends_or_fails_of_mem h ha with ⟨y, hy, hsends⟩ | ⟨hnone, -⟩
    · rw [htaken] at hy
      cases hy
      exact ⟨a, ha, hsends⟩
    · rw [htaken] at hnone
      cases hnone
  · intro a ha
    rcases sends_or_fails_of_mem h ha with ⟨x, htaken, hsends⟩ | ⟨hnone, hfails⟩
    · exact .inl ⟨x, mem_taken.2 ⟨a, ha, htaken⟩, hsends⟩
    · refine .inr ⟨hfails, fun x hx hnumber => ?_⟩
      -- A frame with this number would be this attempt's.
      obtain ⟨b, hb, htaken⟩ := mem_taken.1 hx
      have hsync : b.sync = a.sync := (Attempt.number_of_taken? htaken).symm.trans hnumber
      have hnodup := (sorted_attempts h.numbered acts).imp Nat.ne_of_lt
      rw [List.inj_on_of_nodup_map hnodup hb ha hsync, hnone] at htaken
      cases htaken
  · intro size factor q
    have hq : q.Attached := attached_resized h size factor
    have halike : Alike p q := ⟨rfl, rfl⟩
    refine ⟨fun hproom hqroom => ?_, fun subs => ⟨?_, written_promptly halike h hq hempty rfl subs⟩⟩
    · obtain ⟨all, hall, hperm⟩ := written_of_drain h hempty acts
      obtain ⟨other, hother, hqperm⟩ := written_of_drain hq rfl acts
      rw [halike.taken h hq hproom hqroom] at hqperm
      exact ⟨all, other, hall, hother, hqperm.trans hperm.symm⟩
    · exact List.forall_mem_append.2
        ⟨not_timedOut_promptly h hempty subs, not_timedOut_promptly hq rfl subs⟩

/-- Operations that have not ended, and requests that cannot be built, are not short of room. -/
theorem not_timedOut_of_all {l : List (Attempt κ)}
    (h : l.all (fun a => a.told.isEmpty || !a.frame.isOk) = true) : ∀ a ∈ l, ¬a.TimedOut := by
  rintro a ha ⟨-, hframe, htold⟩
  have ha := List.all_eq_true.1 h a ha
  rw [htold, hframe] at ha
  cases ha

def connection : List (Event Nat) :=
  [.signal .supervised, .signal .seeking, .signal .begun, .signal (.attached 1 "a:1" [] none),
    .signal (.started 1 .writer), .signal (.started 1 .reader)]

def mixed : List (Act Nat) :=
  [.submit 0 ⟨.ping, .ok ⟨.empty, .empty⟩, none, 7⟩,
    .submit 0 ⟨.select, .error (.schema .unavailable), none, 8⟩,
    .submit 0 ⟨.eval, .ok ⟨.empty, .ofList [(Request.expressionKey,
      .text "return box.space.accounts:len()")]⟩, none, 9⟩]

/-- The long request goes past the short one where there is little room. -/
theorem frames_of_connection_of_little_room :
    let p := ((create ⟨none, 1000, 64, Settings.half, 1024⟩).run connection).1
    let q := p.resized 1024 Settings.half
    let little := (p.run ((mixed ++ [Act.drain]).map Act.event)).2.written
    let much := (q.run ((mixed ++ [Act.drain]).map Act.event)).2.written
    p.Attached ∧ p.outbox.data = [] ∧ (p.taken mixed).map Prod.fst = [1, 3] ∧
      (∃ all other, little = contents all ∧ much = contents other ∧ other.Perm all) ∧
      little ≠ much := by
  intro p q little much
  have hcreated := numbered_create (κ := Nat) ⟨none, 1000, 64, Settings.half, 1024⟩
  have h : p.Attached :=
    { socket := by decide +kernel
      isOpen := by decide +kernel
      numbered := (settles_run hcreated connection).numbered hcreated }
  have hempty : p.outbox.data = [] := by decide +kernel
  obtain ⟨-, -, -, -, hsizes⟩ := frames_of_connection p h hempty mixed
  have hlittle : ∀ a ∈ p.attempts mixed, ¬a.TimedOut :=
    not_timedOut_of_all (by decide +kernel)
  have hmuch : ∀ a ∈ q.attempts mixed, ¬a.TimedOut := not_timedOut_of_all (by decide +kernel)
  exact ⟨h, hempty, by decide +kernel, (hsizes 1024 Settings.half).1 hlittle hmuch,
    by decide +kernel⟩

end TupleClient.Pipeline
