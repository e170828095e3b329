import TupleClient.Proofs.Retry.Deadlines

/-!
What a replay does with the operations that are ready when it begins. It tries each of them, unless
the catalog has to be read first and cannot be: then it tries none, also of those that do not wait
for the catalog.
-/
namespace TupleClient.Retry

variable {κ : Type} {i : Incident κ} {n : Nat} {x y : Stand κ} {notes more : List (Note κ)}
  {report : Report κ} {r : Retry κ} {alive replaying : Bool} {now : Nat} {fault : Option String}
  {e : Entry κ} {id : Nat}

def CameBack (id : Nat) (notes : List (Note κ)) : Prop :=
  ∃ e outcome, .ended (.entry e) outcome ∈ notes ∧ e.id = id

/-- The entry went to the pipeline, with its request and the time that it has left. -/
def HandedOver (now : Nat) (e : Entry κ) (notes : List (Note κ)) : Prop :=
  ∃ fault s shown, .submitted now fault s ∈ notes ∧
    s.tag = .entry { e with staged := ⟨e.staged.request, .sent⟩ } ∧
    s.message = e.staged.request.message shown ∧ remaining e.deadline now = some s.timeout

def RunsOut (now : Nat) (e : Entry κ) (report : Report κ) : Prop :=
  (∃ time, e.deadline = some time ∧ time ≤ now) ∧
    (e.tag, .error (.timeout .operation)) ∈ report.outcomes

/-- An entry is handed over or ends, and is not parked any more, unless it has come back since. -/
structure Tried (now : Nat) (e : Entry κ) (notes : List (Note κ)) (report : Report κ)
    (parked : List (Entry κ)) : Prop where
  gone : e.id ∈ parked.map Entry.id → CameBack e.id notes
  tried : HandedOver now e notes ∨ RunsOut now e report

theorem CameBack.mono (h : CameBack id notes) (hsub : notes ⊆ more) : CameBack id more := by
  obtain ⟨e, outcome, hmem, hid⟩ := h
  exact ⟨e, outcome, hsub hmem, hid⟩

theorem HandedOver.mono (h : HandedOver now e notes) (hsub : notes ⊆ more) :
    HandedOver now e more := by
  obtain ⟨fault, s, shown, hmem, hsubmission⟩ := h
  exact ⟨fault, s, shown, hsub hmem, hsubmission⟩

theorem RunsOut.mono {whole : Report κ} (h : RunsOut now e report)
    (hsub : report.outcomes ⊆ whole.outcomes) : RunsOut now e whole :=
  ⟨h.1, hsub h.2⟩

theorem due_of_remaining {deadline : Option Nat} (h : remaining deadline now = none) :
    ∃ time, deadline = some time ∧ time ≤ now := by
  cases deadline with
  | none => cases h
  | some time =>
    refine ⟨time, rfl, Nat.not_lt.1 fun hlt => ?_⟩
    simp [remaining, hlt] at h

theorem Part.cameBack (h : Part i n x notes report y) (hid : id ∈ y.retry.parked.map Entry.id) :
    id ∈ x.retry.parked.map Entry.id ∨ CameBack id notes := by
  have hsub {p : List (Entry κ)} (hp : p ⊆ x.retry.parked) (hmem : id ∈ p.map Entry.id) :
      id ∈ x.retry.parked.map Entry.id := by
    obtain ⟨f, hf, rfl⟩ := List.mem_map.1 hmem
    exact List.mem_map_of_mem (hp hf)
  cases h with
  | met => exact .inl hid
  | plain hi hs => exact .inl hid
  | sent hnow he hs => exact .inl hid
  | overdue hnow he => exact .inl hid
  | @entered r alive replaying back out s =>
    cases s with
    | closed => exact .inl (hsub (List.nil_subset _) hid)
    | _ => exact .inl hid
  | told => exact .inl hid
  | @settled r alive replaying back out f outcome =>
    obtain hsame | ⟨err, rfl, -, -, hparked⟩ := settle_cases (r := r) alive f outcome
    · rw [hsame] at hid
      exact .inl hid
    · rw [hparked, List.map_append, List.mem_append] at hid
      refine hid.imp_right fun hid => ⟨f, .error err, List.mem_singleton_self _, ?_⟩
      exact (List.mem_singleton.1 hid).symm
  | accepted hi hn => exact .inl hid
  | begun hi he => exact .inl hid
  | @read r alive replaying s =>
    have hsame : (r.install s).preflightDone.parked.map Entry.id = r.parked.map Entry.id := by
      simp [preflightDone, install, Function.comp_def]
    rw [hsame] at hid
    exact .inl hid
  | @unread r alive replaying event error hi he hreplaying =>
    refine .inl (hsub ?_ hid)
    split
    · exact List.Subset.refl _
    · exact List.filter_sublist.subset
  | taken => exact .inl (hsub (List.filter_sublist.subset) hid)
  | @unscheduled r alive replaying out f =>
    obtain ⟨deadlines, hunscheduled⟩ := unschedule_eq r f
    rw [hunscheduled] at hid
    exact .inl hid
  | expired hi =>
    rw [expire_eq] at hid
    exact .inl (hsub (List.filter_sublist.subset) hid)
  | ticked hi =>
    rw [tick, expireAll_eq] at hid
    exact .inl (hsub (List.filter_sublist.subset) hid)

theorem Parts.cameBack (h : Parts i n x notes report y) (hid : id ∈ y.retry.parked.map Entry.id) :
    id ∈ x.retry.parked.map Entry.id ∨ CameBack id notes := by
  induction h with
  | none x => exact .inl hid
  | more first _ ih =>
    obtain hmid | hback := ih hid
    · exact (first.cameBack hmid).imp_right (·.mono (List.subset_append_left ..))
    · exact .inr (hback.mono (List.subset_append_right ..))

theorem Tidy.undergo (h : Tidy ⟨r, alive, [], [], false⟩) (incidents : List (Incident κ)) :
    ∃ after, Tidy ⟨r.undergo incidents, after, [], [], false⟩ := by
  induction incidents generalizing r alive with
  | nil => exact ⟨alive, h⟩
  | cons i incidents ih =>
    obtain ⟨after, hparts⟩ := parts_happen r alive i
    exact ih (hparts.tidy h)

theorem handedOver_submit (he : e.staged.stage = .ready) :
    HandedOver now e (r.notesOfSubmit now fault e) ∨ RunsOut now e (r.submit now fault e).2 := by
  rw [notesOfSubmit]
  cases hs : r.submission? now e with
  | some s =>
    obtain ⟨htag, hmessage⟩ := submission?_eq_some he hs
    exact .inl ⟨fault, s, r.snapshot?, List.mem_cons_self, htag, hmessage,
      remaining_of_submission? he hs⟩
  | none =>
    have hremaining := remaining_none_of_submission? he hs
    rw [submit, hremaining]
    exact .inr ⟨due_of_remaining hremaining, List.mem_singleton_self _⟩

theorem handedOver_submitAll {es : List (Entry κ)} (hes : ∀ f ∈ es, f.staged.stage = .ready)
    (he : e ∈ es) :
    HandedOver now e (r.notesOfAll now fault es) ∨ RunsOut now e (r.submitAll now fault es).2 := by
  induction es generalizing r with
  | nil => cases he
  | cons f es ih =>
    obtain ⟨hf, hes⟩ := List.forall_mem_cons.1 hes
    have houtcomes : (r.submitAll now fault (f :: es)).2.outcomes =
        ((r.unschedule f).submit now fault f).2.outcomes ++
          ((((r.unschedule f).submit now fault f).1).submitAll now fault es).2.outcomes :=
      Report.outcomes_andThen ..
    rw [notesOfAll]
    obtain rfl | hmem := List.mem_cons.1 he
    · obtain hover | hout : HandedOver now e ((r.unschedule e).notesOfSubmit now fault e) ∨
          RunsOut now e ((r.unschedule e).submit now fault e).2 := handedOver_submit hf
      · exact .inl (hover.mono (List.subset_append_left ..))
      · exact .inr (hout.mono (houtcomes ▸ List.subset_append_left ..))
    · obtain hover | hout := ih (r := ((r.unschedule f).submit now fault f).1) hes hmem
      · exact .inl (hover.mono (List.subset_append_right ..))
      · exact .inr (hout.mono (houtcomes ▸ List.subset_append_right ..))

theorem tried_resubmit (hx : Tidy ⟨r, alive, [], [], replaying⟩) (he : e ∈ r.parked)
    (hready : e.staged.stage = .ready) :
    Tried now e (r.notesOfResubmit now fault) (r.resubmit now fault).2
      (r.resubmit now fault).1.parked := by
  let i : Incident κ := .event (.resubmit now fault)
  have htaken : Part i 0 ⟨r, alive, [], [], replaying⟩ [] .silent
      ⟨{ r with parked := r.parked.filter (!isReady ·) }, alive, [], r.parked.filter isReady,
        false⟩ := .taken
  have htidy := htaken.tidy hx
  have hmem : e ∈ r.parked.filter isReady := List.mem_filter.2 ⟨he, isReady_iff.2 hready⟩
  obtain ⟨after, hall⟩ : ∃ after, Parts i 0
      ⟨{ r with parked := r.parked.filter (!isReady ·) }, alive, [], r.parked.filter isReady, false⟩
      (r.notesOfResubmit now fault) (r.resubmit now fault).2
      ⟨(r.resubmit now fault).1, after, [], [], false⟩ :=
    parts_submitAll fault rfl htidy.ready
  refine ⟨fun hid => ?_, handedOver_submitAll htidy.ready hmem⟩
  refine (hall.cameBack hid).resolve_left fun hkept => ?_
  obtain ⟨f, hf, hsame⟩ := List.mem_map.1 hkept
  have horder : e.order ∈ (r.parked.filter isReady).map Entry.order := List.mem_map_of_mem hmem
  exact htidy.id_ne (List.mem_append_right _ horder) hf hsame.symm

theorem mem_preflightDone (he : e ∈ r.parked) (hready : e.staged.stage = .ready) :
    e ∈ r.preflightDone.parked := by
  have hsame : { e with staged := e.staged.preflightDone.1 } = e := by
    rw [Staged.preflightDone, Staged.advance, if_neg (by simp [hready])]
  exact List.mem_map.2 ⟨e, he, hsame⟩

theorem needsRefresh_iff : r.needsRefresh = true ↔ ∃ f ∈ r.parked, f.staged.stage = .waiting := by
  simp [needsRefresh, isWaiting]

/-- A replay that can go on to the end tries what was ready when it began. -/
theorem tried_replay {refreshed : Except ClientError Catalog.Snapshot}
    (hx : Tidy ⟨r, alive, [], [], false⟩) (he : e ∈ r.parked) (hready : e.staged.stage = .ready)
    (hread : r.needsRefresh = true → ∃ s, refreshed = .ok s) :
    Tried now e (r.notesOfReplay now fault refreshed) (r.replay now fault refreshed).2
      (r.replay now fault refreshed).1.parked := by
  have hbegun : Tidy ⟨{ r with replays := r.replays - 1 }, alive, [], [], true⟩ :=
    Part.tidy (i := .event (.replay now fault refreshed)) (n := 0) (.begun rfl trivial) hx
  unfold notesOfReplay replay
  by_cases hneeds : ({ r with replays := r.replays - 1 } : Retry κ).needsRefresh = true
  · obtain ⟨s, rfl⟩ := hread hneeds
    have htidy : Tidy ⟨(install { r with replays := r.replays - 1 } s).preflightDone, alive, [], [],
        true⟩ := Part.tidy (i := .event (.replay now fault (.ok s))) (n := 0) .read hbegun
    have htried : Tried now e
        ((install { r with replays := r.replays - 1 } s).preflightDone.notesOfResubmit now fault)
        _ _ := tried_resubmit htidy (mem_preflightDone he hready) hready
    simp only [hneeds, if_true]
    exact ⟨fun hid => (htried.gone hid).mono (List.subset_cons_self ..),
      htried.tried.imp_left (·.mono (List.subset_cons_self ..))⟩
  · simp only [hneeds]
    exact tried_resubmit hbegun he hready

theorem replay_of_unread {error : ClientError} (hneeds : r.needsRefresh = true) :
    let after := r.replay now fault (.error error)
    r.notesOfReplay now fault (.error error) = [] ∧
      after.1.parked.filter isReady = r.parked.filter isReady ∧
      after.1.pipeline = r.pipeline ∧ after.1.deadlines = r.deadlines ∧
      after.1.replays ≤ r.replays ∧
      after.2.outcomes =
        if error.isTransient then []
        else (r.parked.filter isWaiting).map fun f => (f.tag, .error error) := by
  intro after
  have hbegun : ({ r with replays := r.replays - 1 } : Retry κ).needsRefresh = true := hneeds
  have hnotes : r.notesOfReplay now fault (.error error) = [] := by
    rw [notesOfReplay]
    simp only [hbegun, if_true, notesAfter]
  have hafter : after = if error.isTransient then ({ r with replays := r.replays - 1 }, .silent)
      else failWaiting { r with replays := r.replays - 1 } error := by
    simp only [after, replay, hbegun, if_true, replayAfter]
  have hready : (r.parked.filter (!isWaiting ·)).filter isReady = r.parked.filter isReady := by
    rw [List.filter_filter]
    refine List.filter_congr fun f _ => ?_
    cases hstage : f.staged.stage <;> simp [isReady, isWaiting, hstage]
  rw [hafter]
  split
  · exact ⟨hnotes, rfl, rfl, rfl, Nat.sub_le .., rfl⟩
  · refine ⟨hnotes, hready, rfl, rfl, Nat.sub_le .., ?_⟩
    simp [failWaiting, Report.outcomes, List.filterMap_map]

theorem not_tried_of_unread {error : ClientError} (hneeds : r.needsRefresh = true)
    (he : e ∈ r.parked) (hready : e.staged.stage = .ready) :
    ¬Tried now e (r.notesOfReplay now fault (.error error)) (r.replay now fault (.error error)).2
      (r.replay now fault (.error error)).1.parked := by
  intro htried
  obtain ⟨hnotes, hkept, -⟩ : r.notesOfReplay now fault (.error error) = [] ∧
      (r.replay now fault (.error error)).1.parked.filter isReady = r.parked.filter isReady ∧ _ :=
    replay_of_unread hneeds
  have hmem := List.mem_filter.2 ⟨he, isReady_iff.2 hready⟩
  rw [← hkept] at hmem
  obtain ⟨f, outcome, hnote, -⟩ := htried.gone (List.mem_map_of_mem (List.mem_filter.1 hmem).1)
  rw [hnotes] at hnote
  cases hnote

/-- After whatever has happened, a replay tries every operation that is ready when it begins exactly
if there is none, or none waits for the catalog, or the catalog is read; the notes are all that the
pipeline gets from it. Where the catalog cannot be read nothing is tried: what is ready stays parked
with its deadline, and no other replay is called for; if the failure is one that does not pass, only
those that waited for the catalog end. -/
theorem replay_tries_ready (settings : PipelineSettings) (catalog : Option Catalog.Cache)
    (refreshes : Bool) (incidents : List (Incident κ)) (now : Nat) (fault : Option String)
    (refreshed : Except ClientError Catalog.Snapshot) :
    let r := undergo (create settings catalog refreshes) incidents
    let after := r.replay now fault refreshed
    let notes := r.notesOfReplay now fault refreshed
    Records r.pipeline notes after.1.pipeline ∧
    ((∀ e ∈ r.parked, e.staged.stage = .ready → Tried now e notes after.2 after.1.parked) ↔
      (∀ e ∈ r.parked, e.staged.stage ≠ .ready) ∨ (∀ e ∈ r.parked, e.staged.stage ≠ .waiting) ∨
        ∃ s, refreshed = .ok s) ∧
    ∀ error, refreshed = .error error → (∃ e ∈ r.parked, e.staged.stage = .waiting) →
      notes = [] ∧ after.1.parked.filter isReady = r.parked.filter isReady ∧
        after.1.pipeline = r.pipeline ∧ after.1.deadlines = r.deadlines ∧
        after.1.replays ≤ r.replays ∧
        after.2.outcomes =
          if error.isTransient then []
          else (r.parked.filter isWaiting).map fun e => (e.tag, .error error) := by
  intro r after notes
  obtain ⟨alive, hx⟩ := (tidy_create (κ := κ) settings catalog refreshes false).undergo incidents
  refine ⟨records_step r (.replay now fault refreshed),
    ⟨fun htried => ?_, fun hcase e he hready => ?_⟩, ?_⟩
  · by_contra hnone
    push Not at hnone
    obtain ⟨⟨e, he, hready⟩, hwaiting, hunread⟩ := hnone
    cases hrefreshed : refreshed with
    | ok s => exact hunread s hrefreshed
    | error error =>
      subst hrefreshed
      exact not_tried_of_unread (needsRefresh_iff.2 hwaiting) he hready (htried e he hready)
  · refine tried_replay hx he hready fun hneeds => ?_
    obtain hnone | hnone | hread := hcase
    · exact absurd hready (hnone e he)
    · obtain ⟨f, hf, hwaiting⟩ := needsRefresh_iff.1 hneeds
      exact absurd hwaiting (hnone f hf)
    · exact hread
  · intro error herror hwaiting
    simp only [after, notes, herror]
    exact replay_of_unread (needsRefresh_iff.2 hwaiting)

/-- Two operations are refused on a connection that lives: the first one may be tried again at any
time, the second one waits for the catalog. -/
def refusedTwice : List (Incident Nat) :=
  let refusal (code sync : UInt8) : Bytes :=
    [0xce, 0, 0, 0, 8, 0x82, 0x00, 0xcd, 0x80, code, 0x01, sync, 0x80]
  [.event (.signal .supervised), .event (.signal .seeking), .event (.signal .begun),
    .event (.signal (.attached 1 "a:1" [] none)), .event (.signal (.started 1 .writer)),
    .event (.signal (.started 1 .reader)), .event (.replay 0 none (.ok ⟨1, [], []⟩)),
    .event (.execute 0 none .ping (some 50) 7), .event (.execute 0 none .ping (some 60) 8),
    .event (.signal (.received (refusal 7 1))), .event (.signal (.received (refusal 109 2)))]

/-- With the catalog read, both are sent again, each with the time that it has left. -/
theorem replay_tries_ready_of_catalog :
    let r : Retry Nat :=
      undergo (create ⟨none, 1000, 1024, Settings.half, 1024⟩ (some (.create 3)) true) refusedTwice
    let after := r.replay 10 none (.ok ⟨1, [], []⟩)
    (r.parked.map fun e => (e.tag, e.staged.stage)) = [(7, .ready), (8, .waiting)] ∧
      after.1.parked.map (·.tag) = [] ∧
      ∀ e ∈ r.parked, e.staged.stage = .ready →
        Tried 10 e (r.notesOfReplay 10 none (.ok ⟨1, [], []⟩)) after.2 after.1.parked := by
  intro r after
  exact ⟨by decide +kernel, by decide +kernel,
    (replay_tries_ready ⟨none, 1000, 1024, Settings.half, 1024⟩ (some (.create 3)) true refusedTwice
      10 none (.ok ⟨1, [], []⟩)).2.1.2 (.inr (.inr ⟨_, rfl⟩))⟩

/-- Without it the first one is not, although it does not wait for the catalog: it stays parked
beside a connection that lives, and no replay is called for. -/
theorem ready_stranded_beside_alive :
    let r : Retry Nat :=
      undergo (create ⟨none, 1000, 1024, Settings.half, 1024⟩ (some (.create 3)) true) refusedTwice
    ∀ code ∈ [7, 20],
      let unread : Except ClientError Catalog.Snapshot := .error (.server ⟨code, "unreadable"⟩)
      let after := r.replay 10 none unread
      r.pipeline.state = .alive ∧
        (r.parked.map fun e => (e.tag, e.staged.stage)) = [(7, .ready), (8, .waiting)] ∧
        after.1.pipeline.state = .alive ∧ after.1.replays = 0 ∧
        (after.1.parked.filter isReady).map (·.tag) = [7] ∧
        ¬∀ e ∈ r.parked, e.staged.stage = .ready →
          Tried 10 e (r.notesOfReplay 10 none unread) after.2 after.1.parked := by
  intro r code hcode unread after
  have hparked :
      (r.parked.map fun e => (e.tag, e.staged.stage)) = [(7, .ready), (8, .waiting)] := by
    decide +kernel
  have hreplays : ∀ code ∈ [7, 20],
      (r.replay 10 none (.error (.server ⟨code, "unreadable"⟩))).1.replays = 0 := by decide +kernel
  have hneeds : r.needsRefresh = true := by decide +kernel
  have halive : r.pipeline.state = .alive := by decide +kernel
  have htag : (r.parked.filter isReady).map (·.tag) = [7] := by decide +kernel
  obtain ⟨-, hkept, hpipeline, -⟩ : r.notesOfReplay 10 none unread = [] ∧
      after.1.parked.filter isReady = r.parked.filter isReady ∧ after.1.pipeline = r.pipeline ∧ _ :=
    replay_of_unread hneeds
  refine ⟨halive, hparked, hpipeline ▸ halive, hreplays code hcode, hkept ▸ htag, fun htried => ?_⟩
  have hmem : 7 ∈ (r.parked.filter isReady).map (·.tag) := htag ▸ List.mem_singleton_self 7
  obtain ⟨e, he, -⟩ := List.mem_map.1 hmem
  obtain ⟨he, hready⟩ := List.mem_filter.1 he
  exact not_tried_of_unread hneeds he (isReady_iff.1 hready) (htried e he (isReady_iff.1 hready))

end TupleClient.Retry
