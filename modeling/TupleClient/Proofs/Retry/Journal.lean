import TupleClient.Proofs.Retry.Places

/-!
A journal of the retries: what was handed to the pipeline, what came back from it and which catalogs
were read, in the order in which it happened.
-/
namespace TupleClient.Retry

variable {κ : Type}

/-- A submission or a signal went to the pipeline, an operation came back from it, or the catalog
was read: for a replay, or by someone else who uses it. -/
inductive Note (κ : Type) where
  | submitted (now : Nat) (fault : Option String) (s : Submission (Owner κ))
  | signalled (s : Signal)
  | ended (o : Owner κ) (outcome : Outcome)
  | refreshed (s : Catalog.Snapshot)
  | installed (s : Catalog.Snapshot)

/-- An event of the retries, or a catalog that someone else has read. -/
inductive Move (κ : Type) where
  | event (e : Event κ)
  | installed (s : Catalog.Snapshot)

def endings (report : Report (Owner κ)) : List (Note κ) :=
  report.outcomes.map fun x => .ended x.1 x.2

def handed (r : Retry κ) (now : Nat) (fault : Option String) (s : Submission (Owner κ)) :
    List (Note κ) :=
  .submitted now fault s :: endings (r.pipeline.submit now fault s).2.1

def submission? (r : Retry κ) (now : Nat) (e : Entry κ) : Option (Submission (Owner κ)) :=
  match remaining e.deadline now, e.staged.send with
  | some timeout, (staged, some request) =>
    some ⟨request.type, request.message r.snapshot?, timeout, .entry { e with staged := staged }⟩
  | _, _ => none

def notesOfSubmit (r : Retry κ) (now : Nat) (fault : Option String) (e : Entry κ) :
    List (Note κ) :=
  match r.submission? now e with
  | some s => r.handed now fault s
  | none => []

def notesOfAll (r : Retry κ) (now : Nat) (fault : Option String) : List (Entry κ) → List (Note κ)
  | [] => []
  | e :: es =>
    (r.unschedule e).notesOfSubmit now fault e ++
      ((r.unschedule e).submit now fault e).1.notesOfAll now fault es

def notesOfResubmit (r : Retry κ) (now : Nat) (fault : Option String) : List (Note κ) :=
  { r with parked := r.parked.filter (!isReady ·) }.notesOfAll now fault (r.parked.filter isReady)

def notesAfter (r : Retry κ) (now : Nat) (fault : Option String) :
    Except ClientError Catalog.Snapshot → List (Note κ)
  | .ok s => .refreshed s :: (r.install s).preflightDone.notesOfResubmit now fault
  | .error _ => []

def notesOfReplay (r : Retry κ) (now : Nat) (fault : Option String)
    (refreshed : Except ClientError Catalog.Snapshot) : List (Note κ) :=
  let r := { r with replays := r.replays - 1 }
  if r.needsRefresh then r.notesAfter now fault refreshed else r.notesOfResubmit now fault

def notes (r : Retry κ) : Event κ → List (Note κ)
  | .execute now fault request timeout tag =>
    { r with nextEntry := r.nextEntry + 1 }.notesOfSubmit now fault
      ⟨r.nextEntry, .ready request, timeout.map (now + ·), tag⟩
  | .plain now fault request timeout tag =>
    r.handed now fault ⟨request.type, request.message r.snapshot?, timeout, .plain tag⟩
  | .signal s => .signalled s :: endings (r.pipeline.signal s).2
  | .clock _ => []
  | .expired _ => []
  | .replay now fault refreshed => r.notesOfReplay now fault refreshed
  | .resubmit now fault => r.notesOfResubmit now fault
  | .refreshed now fault result => r.notesAfter now fault result

def act (r : Retry κ) : Move κ → Retry κ
  | .event e => (r.step e).1
  | .installed s => r.install s

def noted (r : Retry κ) : Move κ → List (Note κ)
  | .event e => r.notes e
  | .installed s => [.installed s]

def moved (r : Retry κ) : List (Move κ) → Retry κ
  | [] => r
  | m :: ms => (r.act m).moved ms

def journal (r : Retry κ) : List (Move κ) → List (Note κ)
  | [] => []
  | m :: ms => r.noted m ++ (r.act m).journal ms

/-- From `p` to `q` the pipeline got the submissions and signals of a journal and nothing else, and
what came back each time is what stands behind it there. -/
inductive Records : Pipeline (Owner κ) → List (Note κ) → Pipeline (Owner κ) → Prop where
  | nil (p : Pipeline (Owner κ)) : Records p [] p
  | submitted {p q : Pipeline (Owner κ)} {notes : List (Note κ)} {now : Nat}
      {fault : Option String} {s : Submission (Owner κ)}
      (h : Records (p.submit now fault s).1 notes q) :
      Records p (.submitted now fault s :: (endings (p.submit now fault s).2.1 ++ notes)) q
  | signalled {p q : Pipeline (Owner κ)} {notes : List (Note κ)} {s : Signal}
      (h : Records (p.signal s).1 notes q) :
      Records p (.signalled s :: (endings (p.signal s).2 ++ notes)) q
  | refreshed {p q : Pipeline (Owner κ)} {notes : List (Note κ)} {s : Catalog.Snapshot}
      (h : Records p notes q) : Records p (.refreshed s :: notes) q
  | installed {p q : Pipeline (Owner κ)} {notes : List (Note κ)} {s : Catalog.Snapshot}
      (h : Records p notes q) : Records p (.installed s :: notes) q

variable {r : Retry κ} {p q : Pipeline (Owner κ)} {first more : List (Note κ)}

theorem Records.append {last : Pipeline (Owner κ)} (h : Records p first q)
    (g : Records q more last) : Records p (first ++ more) last := by
  induction h with
  | nil p => exact g
  | submitted _ ih =>
    rw [List.cons_append, List.append_assoc]
    exact .submitted (ih g)
  | signalled _ ih =>
    rw [List.cons_append, List.append_assoc]
    exact .signalled (ih g)
  | refreshed _ ih => exact .refreshed (ih g)
  | installed _ ih => exact .installed (ih g)

theorem pipeline_entered (r : Retry κ) (s : Lifecycle.State) :
    (r.entered s).1.pipeline = r.pipeline := by
  cases s <;> rfl

theorem pipeline_settle (r : Retry κ) (alive : Bool) (e : Entry κ) (outcome : Outcome) :
    (r.settle alive e outcome).1.pipeline = r.pipeline := by
  obtain ⟨last, htold⟩ | ⟨parked, deadlines, replays, hparked⟩ := settle_kept r alive e outcome
  · rw [htold]
  · rw [hparked]

theorem follow_same {α : Type} {part : Retry κ → α}
    (hentered : ∀ r s, part (Retry.entered r s).1 = part r)
    (hsettle : ∀ r alive e outcome, part (settle r alive e outcome).1 = part r) (r : Retry κ)
    (alive : Bool) (hs : List (Happening (Owner κ))) :
    part (r.follow alive hs).1 = part r := by
  induction hs generalizing r alive with
  | nil => rfl
  | cons h hs ih =>
    cases h with
    | entered s => exact (ih ..).trans (hentered r s)
    | ended o outcome =>
      cases o with
      | plain tag => exact ih r alive
      | entry e => exact (ih ..).trans (hsettle r alive e outcome)

theorem pipeline_follow (r : Retry κ) (alive : Bool) (hs : List (Happening (Owner κ))) :
    (r.follow alive hs).1.pipeline = r.pipeline :=
  follow_same pipeline_entered pipeline_settle r alive hs

theorem pipeline_absorb (r : Retry κ) (step : Pipeline (Owner κ) × Report (Owner κ)) :
    (r.absorb step).1.pipeline = step.1 :=
  pipeline_follow { r with pipeline := step.1 } r.pipeline.state.isAlive step.2.happenings

theorem records_handed (r : Retry κ) (now : Nat) (fault : Option String)
    (s : Submission (Owner κ)) :
    Records r.pipeline (r.handed now fault s) (r.pipeline.submit now fault s).1 := by
  have hall : Records r.pipeline
      (.submitted now fault s :: (endings (r.pipeline.submit now fault s).2.1 ++ []))
      (r.pipeline.submit now fault s).1 := .submitted (.nil _)
  rwa [List.append_nil] at hall

theorem submit_eq (r : Retry κ) (now : Nat) (fault : Option String) (e : Entry κ) :
    (r.submit now fault e).1 =
      match r.submission? now e with
      | some s =>
        (r.absorb ((r.pipeline.submit now fault s).1, (r.pipeline.submit now fault s).2.1)).1
      | none => r := by
  unfold submit submission?
  cases remaining e.deadline now with
  | none => rfl
  | some timeout =>
    rcases e.staged.send with ⟨staged, _ | request⟩
    · rfl
    · rfl

theorem records_submit (r : Retry κ) (now : Nat) (fault : Option String) (e : Entry κ) :
    Records r.pipeline (r.notesOfSubmit now fault e) (r.submit now fault e).1.pipeline := by
  rw [submit_eq, notesOfSubmit]
  cases r.submission? now e with
  | none => exact .nil _
  | some s =>
    simp only [pipeline_absorb]
    exact records_handed r now fault s

theorem pipeline_unschedule (r : Retry κ) (e : Entry κ) :
    (r.unschedule e).pipeline = r.pipeline := by
  obtain ⟨deadlines, hunscheduled⟩ := unschedule_eq r e
  rw [hunscheduled]

theorem records_submitAll (r : Retry κ) (now : Nat) (fault : Option String)
    (es : List (Entry κ)) :
    Records r.pipeline (r.notesOfAll now fault es) (r.submitAll now fault es).1.pipeline := by
  induction es generalizing r with
  | nil => exact .nil _
  | cons e es ih =>
    have hfirst := records_submit (r.unschedule e) now fault e
    rw [pipeline_unschedule] at hfirst
    exact hfirst.append (ih _)

theorem records_resubmit (r : Retry κ) (now : Nat) (fault : Option String) :
    Records r.pipeline (r.notesOfResubmit now fault) (r.resubmit now fault).1.pipeline :=
  records_submitAll { r with parked := r.parked.filter (!isReady ·) } now fault _

theorem records_replayAfter (r : Retry κ) (now : Nat) (fault : Option String)
    (result : Except ClientError Catalog.Snapshot) :
    Records r.pipeline (r.notesAfter now fault result)
      (r.replayAfter now fault result).1.pipeline := by
  cases result with
  | ok s => exact .refreshed (records_resubmit (r.install s).preflightDone now fault)
  | error e =>
    rw [replayAfter]
    split <;> exact .nil _

theorem pipeline_expire (r : Retry κ) (id : Nat) : (r.expire id).1.pipeline = r.pipeline := by
  unfold expire
  split <;> rfl

theorem pipeline_expireAll (r : Retry κ) (ids : List Nat) :
    (r.expireAll ids).1.pipeline = r.pipeline := by
  induction ids generalizing r with
  | nil => rfl
  | cons id ids ih => exact (ih _).trans (pipeline_expire r id)

theorem records_step (r : Retry κ) (e : Event κ) :
    Records r.pipeline (r.notes e) (r.step e).1.pipeline := by
  cases e with
  | execute now fault request timeout tag =>
    exact records_submit { r with nextEntry := r.nextEntry + 1 } now fault
      ⟨r.nextEntry, .ready request, timeout.map (now + ·), tag⟩
  | plain now fault request timeout tag =>
    have hhanded := records_handed r now fault
      ⟨request.type, request.message r.snapshot?, timeout, .plain tag⟩
    exact pipeline_absorb r (_, _) ▸ hhanded
  | signal s =>
    have hsignalled := Records.signalled (s := s) (.nil (r.pipeline.signal s).1)
    rw [List.append_nil, ← pipeline_absorb r (r.pipeline.signal s)] at hsignalled
    exact hsignalled
  | clock now =>
    rw [show (r.step (.clock now)).1.pipeline = r.pipeline from pipeline_expireAll ..]
    exact .nil _
  | expired id =>
    rw [show (r.step (.expired id)).1.pipeline = r.pipeline from pipeline_expire r id]
    exact .nil _
  | replay now fault refreshed =>
    rw [notes, notesOfReplay, step, replay]
    split
    · exact records_replayAfter { r with replays := r.replays - 1 } now fault refreshed
    · exact records_resubmit { r with replays := r.replays - 1 } now fault
  | resubmit now fault => exact records_resubmit r now fault
  | refreshed now fault result => exact records_replayAfter r now fault result

/-- A journal leaves nothing out that the pipeline got or gave back. -/
theorem records_journal (r : Retry κ) (moves : List (Move κ)) :
    Records r.pipeline (r.journal moves) (r.moved moves).pipeline := by
  induction moves generalizing r with
  | nil => exact .nil _
  | cons m moves ih =>
    cases m with
    | event e => exact (records_step r e).append (ih _)
    | installed s => exact .installed (ih (r.install s))

end TupleClient.Retry
