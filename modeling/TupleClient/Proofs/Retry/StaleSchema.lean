import TupleClient.Proofs.Frame.Sync
import TupleClient.Proofs.Retry.Staleness

/-!
Operations that were refused for a stale schema. None of them is sent again before the catalog was
read again, and what is sent then is made up anew, by the catalog that is there.
-/
namespace TupleClient.Retry

variable {κ : Type} {log : List (Note κ)} {n : Note κ} {err : ClientError} {cache : Catalog.Cache}
  {out : List (Nat × Request)} {r : Retry κ}

theorem rearm_of_sent {s : Staged Request} (h : s.stage = .sent) (preflight : Bool) :
    (s.rearm preflight).1 = ⟨s.request, if preflight then .waiting else .ready⟩ := by
  unfold Staged.rearm Staged.advance
  rw [if_pos h]

theorem waits_of_error {e : Entry κ} (hsent : e.staged.stage = .sent) (hfresh : ¬ Stale log e.id)
    (htransient : err.isTransient = true) :
    Waits (log ++ [.ended (.entry e) (.error err)])
      { e with staged := (e.staged.rearm err.isWrongSchemaVersion).1 } := by
  have hlast : LastError (log ++ [.ended (.entry e) (.error err)]) e.id err :=
    ⟨log, e, [], rfl, rfl, fun _ _ hx => absurd hx List.not_mem_nil⟩
  rw [rearm_of_sent hsent]
  cases hwrong : err.isWrongSchemaVersion with
  | true =>
    have hstale : Stale (log ++ [.ended (.entry e) (.error err)]) e.id :=
      stale_append.2 (.inl ⟨e, err, rfl, rfl, hwrong⟩)
    exact
      { stale := iff_of_true rfl hstale
        ready := .inl rfl
        error := ⟨err, hlast, htransient,
          fun hright => absurd (hright.symm.trans hwrong) Bool.false_ne_true⟩ }
  | false =>
    have hstale : ¬ Stale (log ++ [.ended (.entry e) (.error err)]) e.id := by
      rw [stale_append]
      rintro (⟨x, other, hn, -, hother⟩ | ⟨hstale, -⟩)
      · cases hn
        exact Bool.false_ne_true (hwrong.symm.trans hother)
      · exact hfresh hstale
    exact
      { stale := iff_of_false Stage.noConfusion hstale
        ready := .inr rfl
        error := ⟨err, hlast, htransient, fun _ => rfl⟩ }

theorem Kempt.park {e : Entry κ} (h : Kempt cache log out r)
    (hid : e.id ∉ out.map Prod.fst ++ r.parked.map Entry.id) (hlt : e.id < r.nextEntry)
    (hrequest : ∀ now fault s x, .submitted now fault s ∈ log → s.tag = .entry x → x.id = e.id →
      x.staged.request = e.staged.request)
    (hwaits : Waits log e) (deadlines : Deadlines) (replays : Nat) :
    Kempt cache log out
      { r with parked := r.parked ++ [e], deadlines := deadlines, replays := replays } := by
  have hids : (out.map Prod.fst ++ (r.parked ++ [e]).map Entry.id) =
      out.map Prod.fst ++ r.parked.map Entry.id ++ [e.id] := by
    rw [List.map_append, List.append_assoc]
    rfl
  exact
    { h with
      distinct := by
        rw [hids]
        exact List.nodup_append_comm.2 (List.nodup_cons.2 ⟨hid, h.distinct⟩)
      below := by
        intro id hmem
        rw [hids, List.mem_append, List.mem_singleton] at hmem
        rcases hmem with hmem | rfl
        · exact h.below id hmem
        · exact hlt
      request := by
        intro x hx now fault s y hs htag hy
        rw [List.map_append, ← List.append_assoc, List.mem_append] at hx
        rcases hx with hx | hx
        · exact h.request x hx now fault s y hs htag hy
        · obtain rfl : x = e.key := List.mem_singleton.1 hx
          exact hrequest now fault s y hs htag hy
      parked := by
        intro x hx
        rcases List.mem_append.1 hx with hx | hx
        · exact h.parked x hx
        · exact List.mem_singleton.1 hx ▸ hwaits }

theorem Kempt.settled {e : Entry κ} (h : Kempt cache log (e.key :: out) r)
    (hsent : e.staged.stage = .sent) (alive : Bool) (outcome : Outcome) :
    Kempt cache (log ++ [.ended (.entry e) outcome]) out (r.settle alive e outcome).1 := by
  have hdistinct : e.id ∉ out.map Prod.fst ++ r.parked.map Entry.id :=
    (List.nodup_cons.1 h.distinct).1
  have hlt : e.id < r.nextEntry := h.below e.id List.mem_cons_self
  have hleft : Kempt cache log out r :=
    h.sublist (List.sublist_cons_self ..) (.refl _) rfl rfl (Nat.le_refl _)
  have hnoted : Kempt cache (log ++ [.ended (.entry e) outcome]) out r := by
    refine hleft.append rfl ?_ ?_ ?_
    · rintro x ⟨⟩
      exact hlt
    · rintro x o ⟨⟩
      exact hdistinct
    · rintro now fault s x ⟨⟩
  cases outcome with
  | ok response => exact hnoted
  | error err =>
    cases htransient : err.isTransient with
    | false =>
      rw [settle, htransient, if_neg Bool.false_ne_true]
      exact hnoted
    | true =>
      rw [settle, if_pos htransient]
      cases hclosed : r.closed with
      | some reason =>
        rw [park_of_closed hclosed]
        exact hnoted
      | none =>
        obtain ⟨deadlines, replays, hpark⟩ := park_of_open hclosed alive e err
        have hstale : r.isStale err = err.isWrongSchemaVersion := by
          rw [isStale, h.refreshes, Bool.true_and]
        have hwaits := waits_of_error hsent (h.fresh e.key List.mem_cons_self) htransient
        rw [hpark, hstale]
        refine hnoted.park (e := { e with staged := (e.staged.rearm err.isWrongSchemaVersion).1 })
          hdistinct hlt ?_ hwaits deadlines replays
        intro now fault s x hs htag hid
        rw [rearm_of_sent hsent]
        rcases List.mem_append.1 hs with hs | hs
        · exact h.request e.key List.mem_cons_self now fault s x hs htag hid
        · cases List.mem_singleton.1 hs

theorem Kempt.entered (h : Kempt cache log out r) (s : Lifecycle.State) :
    Kempt cache log out (r.entered s).1 := by
  cases s with
  | closed => exact h.sublist (.refl _) (List.nil_sublist _) rfl rfl (Nat.le_refl _)
  | alive => exact h.sublist (.refl _) (.refl _) rfl rfl (Nat.le_refl _)
  | _ => exact h

theorem Kempt.follow (alive : Bool) (hs : List (Happening (Owner κ)))
    (h : Kempt cache log (keys (⟨hs, [], false⟩ : Report (Owner κ)).tags ++ out) r)
    (hsent : ∀ e, .entry e ∈ (⟨hs, [], false⟩ : Report (Owner κ)).tags → e.staged.stage = .sent) :
    Kempt cache (log ++ endings ⟨hs, [], false⟩) out (r.follow alive hs).1 := by
  induction hs generalizing r log alive with
  | nil =>
    rw [show endings (⟨[], [], false⟩ : Report (Owner κ)) = [] from rfl, List.append_nil]
    exact h
  | cons first hs ih =>
    cases first with
    | entered s => exact ih s.isAlive (h.entered s) hsent
    | ended o outcome =>
      have hrest := fun e he => hsent e (List.mem_cons_of_mem o he)
      have hlog : log ++ endings ⟨.ended o outcome :: hs, [], false⟩ =
          log ++ [.ended o outcome] ++ endings ⟨hs, [], false⟩ := by
        rw [List.append_assoc]
        rfl
      rw [hlog]
      cases o with
      | plain tag => exact ih alive (h.other rfl rfl) hrest
      | entry e =>
        exact ih alive (h.settled (hsent e List.mem_cons_self) alive outcome) hrest

variable {why : ClientError → Prop}

theorem Kempt.absorb {p : Pipeline (Owner κ)} {report : Report (Owner κ)}
    {given : List (Nat × Owner κ)} (hr : Sound why r)
    (hsettles : Pipeline.Settles r.pipeline given p report)
    (hgiven : ∀ e, .entry e ∈ given.map Prod.snd → e.staged.stage = .sent)
    (h : Kempt cache log (keys (owners r.pipeline) ++ (keys (given.map Prod.snd) ++ out)) r) :
    Kempt cache (log ++ endings report) (keys (owners (r.absorb (p, report)).1.pipeline) ++ out)
      (r.absorb (p, report)).1 := by
  have howners : (report.tags ++ owners p).Perm (owners r.pipeline ++ given.map Prod.snd) := by
    have haccounts := hsettles.accounts
    rwa [List.map_append] at haccounts
  have hkeys : (keys report.tags ++ (keys (owners p) ++ out)).Perm
      (keys (owners r.pipeline) ++ (keys (given.map Prod.snd) ++ out)) := by
    have hperm := (howners.filterMap Owner.key?).append_right out
    rwa [List.filterMap_append, List.filterMap_append, List.append_assoc,
      List.append_assoc] at hperm
  have hmoved := h.perm hkeys
  have hbefore : Kempt cache log (keys report.tags ++ (keys (owners p) ++ out))
      { r with pipeline := p } := { hmoved with }
  have hsent : ∀ e, .entry e ∈ report.tags → e.staged.stage = .sent := by
    intro e he
    cases List.mem_append.1 (howners.subset (List.mem_append_left _ he)) with
    | inl he => exact hr.sent e he
    | inr he => exact hgiven e he
  rw [pipeline_absorb]
  exact hbefore.follow r.pipeline.state.isAlive report.happenings hsent

theorem submission?_eq_some {now : Nat} {e : Entry κ} (he : e.staged.stage = .ready)
    {s : Submission (Owner κ)} (h : r.submission? now e = some s) :
    s.tag = .entry { e with staged := ⟨e.staged.request, .sent⟩ } ∧
      s.message = e.staged.request.message r.snapshot? := by
  rw [submission?, send_of_ready he] at h
  cases hremaining : remaining e.deadline now with
  | none =>
    rw [hremaining] at h
    cases h
  | some timeout =>
    rw [hremaining] at h
    cases h
    exact ⟨rfl, rfl⟩

theorem Kempt.submitted {e : Entry κ} {s : Submission (Owner κ)} (h : Kempt cache log out r)
    (hmem : e.key ∈ out) (htag : s.tag = .entry e)
    (hmessage : s.message = e.staged.request.message r.snapshot?) (now : Nat)
    (fault : Option String) : Kempt cache (log ++ [.submitted now fault s]) out r := by
  refine h.append rfl ?_ ?_ ?_
  · intro x hx
    rw [Note.about?, htag] at hx
    cases hx
    exact h.below e.id (List.mem_append_left _ (List.mem_map_of_mem hmem))
  · rintro x outcome ⟨⟩
  · rintro now fault t x ⟨⟩ hx
    rw [htag] at hx
    cases hx
    refine ⟨hmem, ⟨h.fresh e.key hmem, ?_, ?_⟩⟩
    · rw [hmessage, snapshot?, h.catalog]
      rfl
    · exact h.request e.key (List.mem_append_left _ hmem)

theorem Kempt.submit {e : Entry κ} (hr : Sound why r)
    (h : Kempt cache log (keys (owners r.pipeline) ++ e.key :: out) r)
    (he : e.staged.stage = .ready) (now : Nat) (fault : Option String) :
    Kempt cache (log ++ r.notesOfSubmit now fault e)
      (keys (owners (r.submit now fault e).1.pipeline) ++ out) (r.submit now fault e).1 := by
  rw [submit_eq, notesOfSubmit]
  cases hs : r.submission? now e with
  | none =>
    rw [List.append_nil]
    exact h.sublist ((List.sublist_cons_self ..).append_left _) (.refl _) rfl rfl (Nat.le_refl _)
  | some s =>
    obtain ⟨htag, hmessage⟩ := submission?_eq_some he hs
    have hmem : e.key ∈ keys (owners r.pipeline) ++ e.key :: out :=
      List.mem_append_right _ List.mem_cons_self
    have hnoted := h.submitted (e := { e with staged := ⟨e.staged.request, .sent⟩ }) hmem htag
      hmessage now fault
    have hkey : keys ([(r.pipeline.nextSync, s.tag)].map Prod.snd) = [e.key] := by
      rw [htag]
      rfl
    have hgiven : ∀ x, .entry x ∈ [(r.pipeline.nextSync, s.tag)].map Prod.snd →
        x.staged.stage = .sent := by
      intro x hx
      obtain rfl := Owner.entry.inj ((List.mem_singleton.1 hx).trans htag)
      rfl
    have hout : e.key :: out = keys ([(r.pipeline.nextSync, s.tag)].map Prod.snd) ++ out := by
      rw [hkey]
      rfl
    rw [hout] at hnoted
    have hall := hnoted.absorb hr (Pipeline.settles_submit hr.numbered now fault s) hgiven
    rwa [List.append_assoc] at hall

theorem Kempt.unschedule (h : Kempt cache log out r) (e : Entry κ) :
    Kempt cache log out (r.unschedule e) := by
  obtain ⟨deadlines, hunscheduled⟩ := unschedule_eq r e
  rw [hunscheduled]
  exact { h with }

theorem Kempt.submitAll {es : List (Entry κ)} (hr : Sound why r)
    (h : Kempt cache log (keys (owners r.pipeline) ++ es.map Entry.key) r)
    (hes : ∀ e ∈ es, e.staged.stage = .ready) (now : Nat) (fault : Option String) :
    Kempt cache (log ++ r.notesOfAll now fault es)
      (keys (owners (r.submitAll now fault es).1.pipeline)) (r.submitAll now fault es).1 := by
  induction es generalizing r log with
  | nil =>
    rw [List.map_nil, List.append_nil] at h
    rw [notesOfAll, List.append_nil]
    exact h
  | cons e es ih =>
    obtain ⟨he, hes⟩ := List.forall_mem_cons.1 hes
    obtain ⟨deadlines, hunscheduled⟩ := unschedule_eq r e
    have hsound : Sound why (r.unschedule e) := by
      rw [hunscheduled]
      exact { hr with kept := { hr.kept with } }
    have hbefore : Kempt cache log
        (keys (owners (r.unschedule e).pipeline) ++ e.key :: es.map Entry.key)
        (r.unschedule e) := by
      rw [pipeline_unschedule]
      exact h.unschedule e
    have hfirst := hbefore.submit hsound he now fault
    have hrest := ih (custody_submit hsound he now fault).sound hfirst hes
    rwa [List.append_assoc] at hrest

theorem Kempt.takeReady (h : Kempt cache log out r) :
    Kempt cache log (out ++ (r.parked.filter isReady).map Entry.key)
      { r with parked := r.parked.filter (!isReady ·) } := by
  have hparts := List.filter_append_perm isReady r.parked
  have hids : ((out ++ (r.parked.filter isReady).map Entry.key).map Prod.fst ++
      (r.parked.filter (!isReady ·)).map Entry.id).Perm
      (out.map Prod.fst ++ r.parked.map Entry.id) := by
    rw [map_fst_keys, List.append_assoc, ← List.map_append]
    exact (hparts.map Entry.id).append_left _
  have hkeys : (out ++ (r.parked.filter isReady).map Entry.key ++
      (r.parked.filter (!isReady ·)).map Entry.key).Perm (out ++ r.parked.map Entry.key) := by
    rw [List.append_assoc, ← List.map_append]
    exact (hparts.map Entry.key).append_left _
  exact
    { h with
      distinct := hids.nodup_iff.2 h.distinct
      below := fun id hid => h.below id (hids.subset hid)
      request := fun x hx => h.request x (hkeys.subset hx)
      fresh := by
        intro x hx
        rcases List.mem_append.1 hx with hx | hx
        · exact h.fresh x hx
        · obtain ⟨e, he, rfl⟩ := List.mem_map.1 hx
          obtain ⟨hparked, hready⟩ := List.mem_filter.1 he
          intro hstale
          have hwaiting := (h.parked e hparked).stale.2 hstale
          rw [isReady_iff.1 hready] at hwaiting
          cases hwaiting
      parked := fun e he => h.parked e (List.mem_filter.1 he).1 }

/-- `Kempt` between two events, when all that is on its way is in the pipeline. -/
abbrev Settled (cache : Catalog.Cache) (log : List (Note κ)) (r : Retry κ) : Prop :=
  Kempt cache log (keys (owners r.pipeline)) r

theorem settled_resubmit (hr : Sound why r) (h : Settled cache log r) (now : Nat)
    (fault : Option String) :
    Settled cache (log ++ r.notesOfResubmit now fault) (r.resubmit now fault).1 :=
  Kempt.submitAll (hr.filter (!isReady ·)) h.takeReady
    (fun _ he => isReady_iff.1 (List.mem_filter.1 he).2) now fault

theorem settled_replayAfter (hr : Sound why r) (h : Settled cache log r) (now : Nat)
    (fault : Option String) (result : Except ClientError Catalog.Snapshot) :
    Settled cache (log ++ r.notesAfter now fault result) (r.replayAfter now fault result).1 := by
  cases result with
  | ok s =>
    have hinstalled : Custody why r [] (r.install s) .silent :=
      .of_eq hr rfl rfl rfl (Nat.le_refl _)
    have hready := custody_preflightDone hinstalled.sound
    have hall := settled_resubmit hready.sound (h.refreshed s) now fault
    rwa [List.append_assoc] at hall
  | error e =>
    rw [notesAfter, List.append_nil, replayAfter]
    split
    · exact h
    · exact h.sublist (.refl _) List.filter_sublist rfl rfl (Nat.le_refl _)

theorem Kempt.expire (h : Kempt cache log out r) (id : Nat) :
    Kempt cache log out (r.expire id).1 := by
  unfold Retry.expire
  split
  · exact h.sublist (.refl _) List.filter_sublist rfl rfl (Nat.le_refl _)
  · exact h

theorem Kempt.expireAll (h : Kempt cache log out r) (ids : List Nat) :
    Kempt cache log out (r.expireAll ids).1 := by
  induction ids generalizing r with
  | nil => exact h
  | cons id ids ih => exact ih (h.expire id)

theorem Kempt.execute (h : Kempt cache log out r) (request : Request) :
    Kempt cache log (out ++ [(r.nextEntry, request)]) { r with nextEntry := r.nextEntry + 1 } := by
  have hids : ((out ++ [(r.nextEntry, request)]).map Prod.fst ++ r.parked.map Entry.id).Perm
      (r.nextEntry :: (out.map Prod.fst ++ r.parked.map Entry.id)) := by
    rw [List.map_append, List.append_assoc]
    exact List.perm_middle
  have hnew : r.nextEntry ∉ out.map Prod.fst ++ r.parked.map Entry.id :=
    fun hmem => Nat.lt_irrefl _ (h.below _ hmem)
  exact
    { refreshes := h.refreshes
      catalog := h.catalog
      distinct := hids.nodup_iff.2 (List.nodup_cons.2 ⟨hnew, h.distinct⟩)
      below := by
        intro id hid
        rcases List.mem_cons.1 (hids.subset hid) with rfl | hid
        · exact Nat.lt_succ_self _
        · exact Nat.lt_succ_of_lt (h.below id hid)
      past := fun n hn e he => Nat.lt_succ_of_lt (h.past n hn e he)
      request := by
        intro x hx now fault s e hs htag hid
        rcases List.mem_append.1 hx with hx | hx
        · rcases List.mem_append.1 hx with hx | hx
          · exact h.request x (List.mem_append_left _ hx) now fault s e hs htag hid
          · obtain rfl := List.mem_singleton.1 hx
            have hentry : (Note.submitted now fault s).about? = some e := by
              rw [Note.about?, htag]
            exact absurd (h.past _ hs e hentry) (hid ▸ Nat.lt_irrefl _)
        · exact h.request x (List.mem_append_right _ hx) now fault s e hs htag hid
      fresh := by
        intro x hx
        rcases List.mem_append.1 hx with hx | hx
        · exact h.fresh x hx
        · obtain rfl := List.mem_singleton.1 hx
          rintro ⟨before, e, err, after, hlog, hid, -⟩
          have hmem : Note.ended (.entry e) (.error err) ∈ log := by
            rw [hlog]
            exact List.mem_append_right _ List.mem_cons_self
          exact absurd (h.past _ hmem e rfl) (hid ▸ Nat.lt_irrefl _)
      parked := h.parked
      justified := h.justified }

theorem settled_absorb {p : Pipeline (Owner κ)} {report : Report (Owner κ)}
    {given : List (Nat × Owner κ)} (hr : Sound why r)
    (hsettles : Pipeline.Settles r.pipeline given p report)
    (hgiven : keys (given.map Prod.snd) = [])
    (h : Settled cache log r) :
    Settled cache (log ++ endings report) (r.absorb (p, report)).1 := by
  have hnone : ∀ e, .entry e ∈ given.map Prod.snd → e.staged.stage = .sent := by
    intro e he
    have hkey : e.key ∈ keys (given.map Prod.snd) := List.mem_filterMap.2 ⟨.entry e, he, rfl⟩
    rw [hgiven] at hkey
    cases hkey
  have hbefore : Kempt cache log (keys (owners r.pipeline) ++ (keys (given.map Prod.snd) ++ []))
      r := by
    rw [hgiven, List.append_nil, List.append_nil]
    exact h
  have hall := hbefore.absorb hr hsettles hnone
  rwa [List.append_nil] at hall

theorem settled_expireAll (h : Settled cache log r) (ids : List Nat) :
    Settled cache log (r.expireAll ids).1 := by
  rw [Settled, pipeline_expireAll]
  exact h.expireAll ids

theorem settled_replay (hr : Sound why r) (h : Settled cache log r) (now : Nat)
    (fault : Option String) (refreshed : Except ClientError Catalog.Snapshot) :
    Settled cache (log ++ r.notesOfReplay now fault refreshed)
      (r.replay now fault refreshed).1 := by
  have hsound : Sound why { r with replays := r.replays - 1 } :=
    { hr with kept := { hr.kept with } }
  have hbegun : Settled cache log { r with replays := r.replays - 1 } := { h with }
  rw [notesOfReplay, replay]
  split
  · exact settled_replayAfter hsound hbegun now fault refreshed
  · exact settled_resubmit hsound hbegun now fault

theorem settled_step (hr : Sound why r) (h : Settled cache log r) (e : Event κ) :
    Settled cache (log ++ r.notes e) (r.step e).1 := by
  cases e with
  | execute now fault request timeout tag =>
    have hsound : Sound why { r with nextEntry := r.nextEntry + 1 } :=
      { hr with kept := { hr.kept with } }
    have hall := (h.execute request).submit hsound
      (e := ⟨r.nextEntry, .ready request, timeout.map (now + ·), tag⟩) rfl now fault
    rwa [List.append_nil] at hall
  | plain now fault request timeout tag =>
    have hnoted : Settled cache (log ++ [.submitted now fault
        ⟨request.type, request.message r.snapshot?, timeout, .plain tag⟩]) r := h.other rfl rfl
    have hall := settled_absorb hr (Pipeline.settles_submit hr.numbered now fault
      ⟨request.type, request.message r.snapshot?, timeout, .plain tag⟩) rfl hnoted
    rwa [List.append_assoc] at hall
  | signal s =>
    have hnoted : Settled cache (log ++ [.signalled s]) r := h.other rfl rfl
    have hall := settled_absorb hr (Pipeline.settles_signal hr.numbered s) rfl hnoted
    rwa [List.append_assoc] at hall
  | clock now =>
    have hserved : Settled cache log { r with deadlines := (r.deadlines.service now).1 } :=
      { h with }
    rw [notes, List.append_nil]
    exact settled_expireAll hserved (r.deadlines.service now).2
  | expired id =>
    rw [notes, List.append_nil]
    exact settled_expireAll h [id]
  | replay now fault refreshed => exact settled_replay hr h now fault refreshed
  | resubmit now fault => exact settled_resubmit hr h now fault
  | refreshed now fault result => exact settled_replayAfter hr h now fault result

theorem settled_moved (hr : Sound (fun _ => True) r) (hentered : Entered r)
    (h : Settled cache log r) (moves : List (Move κ)) :
    Settled cache (log ++ r.journal moves) (r.moved moves) := by
  induction moves generalizing r log with
  | nil =>
    rw [journal, List.append_nil]
    exact h
  | cons m moves ih =>
    rw [journal, ← List.append_assoc]
    cases m with
    | event e =>
      have hstep := custody_step hr hentered e fun _ _ => trivial
      exact ih hstep.sound (entered_step hr hentered e fun _ _ => trivial) (settled_step hr h e)
    | installed s =>
      have hinstalled : Custody (fun _ => True) r [] (r.install s) .silent :=
        .of_eq hr rfl rfl rfl (Nat.le_refl _)
      exact ih hinstalled.sound ⟨hentered.distinct, hentered.lt_nextEntry⟩ (h.installed s)

theorem settled_create (settings : PipelineSettings) (cache : Catalog.Cache) :
    Settled cache [] (create settings (some cache) true : Retry κ) where
  refreshes := rfl
  catalog := rfl
  distinct := .nil
  below := fun _ hid => absurd hid List.not_mem_nil
  past := fun _ hn => absurd hn List.not_mem_nil
  request := fun _ hx => absurd hx List.not_mem_nil
  fresh := fun _ hx => absurd hx List.not_mem_nil
  parked := fun _ he => absurd he List.not_mem_nil
  justified := by
    intro before now fault s after e hlog
    exact absurd hlog (List.append_ne_nil_of_right_ne_nil _ (List.cons_ne_nil _ _)).symm

def Stamped (bytes : Bytes) (version : Nat) : Prop :=
  ∃ m, Frame.encode m = .ok bytes ∧
    m.header.get? Message.schemaVersionKey = some (.ofNat version)

/-- A request with names says at which version they were looked up, under whichever number it is
sent. -/
theorem stamped_of_frameOf {request : Request} (hbound : request.isSchemaBound = true)
    {s : Catalog.Snapshot} {sync : Nat} {bytes : Bytes}
    (h : Pipeline.frameOf (request.message (some s)) sync = .ok bytes) :
    Stamped bytes s.version := by
  cases hfill : Request.fill s request.arguments .empty with
  | error e =>
    simp only [Request.message, hbound, if_true, hfill, Pipeline.frameOf] at h
    cases h
  | ok body =>
    simp only [Request.message, hbound, if_true, hfill, Pipeline.frameOf] at h
    split at h
    · rename_i encoded hencode
      cases h
      -- The number comes into the header last, under a key of its own.
      have hne : Message.schemaVersionKey ≠ Message.syncKey := by decide
      refine ⟨_, hencode, ?_⟩
      exact (Fields.lookup_insertInto_of_ne hne _ _).trans (Fields.lookup_insertInto ..)
    · cases h

/-- What the journal `log` tells of operations that are tried again. -/
structure NeverBlind (cache : Catalog.Cache) (log : List (Note κ)) (q : Retry κ) : Prop where
  /-- Between a refusal for a stale schema and the next try the catalog was read again. -/
  refreshed : ∀ before e err between now fault s x after,
    log = before ++ .ended (.entry e) (.error err) ::
      (between ++ .submitted now fault s :: after) →
    err.isWrongSchemaVersion = true → s.tag = .entry x → x.id = e.id →
    ∃ snapshot, .refreshed snapshot ∈ between
  /-- Each try is made up anew by the catalog that is there. -/
  anew : ∀ before now fault s e after, log = before ++ .submitted now fault s :: after →
    s.tag = .entry e →
    s.message = e.staged.request.message (some (cacheAfter cache before).current)
  /-- A later try is one of the same request, and no frame of it says an older version. -/
  later : ∀ before now fault s e between now' fault' s' e' after,
    log = before ++ .submitted now fault s :: (between ++ .submitted now' fault' s' :: after) →
    s.tag = .entry e → s'.tag = .entry e' → e'.id = e.id →
    e'.staged.request = e.staged.request ∧
    (e.staged.request.isSchemaBound = true → ∀ sync bytes sync' bytes',
      Pipeline.frameOf s.message sync = .ok bytes →
      Pipeline.frameOf s'.message sync' = .ok bytes' →
      ∃ version version', Stamped bytes version ∧ Stamped bytes' version' ∧ version ≤ version')
  parked : ∀ e ∈ q.parked, Waits log e

theorem Kempt.neverBlind (h : Kempt cache log out r) : NeverBlind cache log r where
  refreshed := by
    intro before e err between now fault s x after hlog hwrong htag hid
    rw [← List.cons_append, ← List.append_assoc] at hlog
    have hjustified := h.justified _ now fault s after x hlog htag
    by_contra hnone
    rw [not_exists] at hnone
    exact hjustified.fresh ⟨before, e, err, between, rfl, hid.symm, hwrong, hnone⟩
  anew := fun before now fault s e after hlog htag =>
    (h.justified before now fault s after e hlog htag).message
  later := by
    intro before now fault s e between now' fault' s' e' after hlog htag htag' hid
    have hfirst := h.justified before now fault s _ e hlog htag
    rw [← List.cons_append, ← List.append_assoc] at hlog
    have hlast := h.justified _ now' fault' s' after e' hlog htag'
    have hsame : e.staged.request = e'.staged.request :=
      hlast.request now fault s e (List.mem_append_right _ List.mem_cons_self) htag hid.symm
    refine ⟨hsame.symm, fun hbound sync bytes sync' bytes' hbytes hbytes' => ?_⟩
    rw [hfirst.message] at hbytes
    rw [hlast.message, cacheAfter_append] at hbytes'
    exact ⟨_, _, stamped_of_frameOf hbound hbytes, stamped_of_frameOf (hsame ▸ hbound) hbytes',
      version_le_cacheAfter ..⟩
  parked := h.parked

/-- In every run of the retries with a catalog, whoever else reads it: an operation that was refused
for a stale schema is not sent again before the catalog was read again. What is sent is made up
anew, so that the version in it never goes back, and only what was so refused waits for the
catalog. -/
theorem never_blind (settings : PipelineSettings) (cache : Catalog.Cache)
    (moves : List (Move κ)) :
    let start : Retry κ := create settings (some cache) true
    let log := start.journal moves
    let last := start.moved moves
    Records start.pipeline log last.pipeline ∧ last.catalog = some (cacheAfter cache log) ∧
      NeverBlind cache log last := by
  intro start log last
  have hsettled : Settled cache log last :=
    settled_moved (sound_create settings (some cache) true)
      (entered_create settings (some cache) true) (settled_create settings cache) moves
  exact ⟨records_journal start moves, hsettled.catalog, hsettled.neverBlind⟩

/-- A refused request waits, and is in flight again once the catalog was read again. -/
example :
    let refusal : Bytes := [0xce, 0, 0, 0, 8, 0x82, 0x00, 0xcd, 0x80, 0x6d, 0x01, 0x01, 0x80]
    let connected : List Signal :=
      [.supervised, .seeking, .begun, .attached 1 "a:1" [] none, .started 1 .writer,
        .started 1 .reader]
    let start : Retry Unit :=
      create ⟨none, 1000, 1024, Settings.half, 1024⟩ (some (.create 3)) true
    let refused := start.moved (connected.map (fun s => .event (.signal s)) ++
      [.event (.execute 0 none .ping none ()), .event (.signal (.received refusal))])
    let tried := refused.act (.event (.replay 0 none (.ok ⟨1, [], []⟩)))
    refused.parked.map (·.staged.stage) = [.waiting] ∧ tried.parked.length = 0 ∧
      (owners tried.pipeline).map Owner.label = [(some 1, ())] := by
  decide +kernel

end TupleClient.Retry
