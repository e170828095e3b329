import TupleClient.Proofs.Retry.Parking

/-!
Whose hands an operation is in. A step of the retries moves operations between the pipeline and the
parked ones and tells of those that leave both; none is dropped on the way and none is copied.
-/
namespace TupleClient.Retry

variable {κ : Type} {why : ClientError → Prop} {r q : Retry κ} {report : Report κ}
  {new : List (Label κ)}

/-- What holds in every run. What is in flight was sent and what is parked was not; `why` holds of
the reasons that the client can be closed for. -/
structure Sound (why : ClientError → Prop) (r : Retry κ) : Prop where
  numbered : r.pipeline.Numbered
  sent : ∀ e, .entry e ∈ owners r.pipeline → e.staged.stage = .sent
  kept : Kept why r
  closed : r.closed.isSome ↔ r.pipeline.state = .closed

/-- From `r` to `q` the operations of `new` came in, and the report tells of all that have left. -/
structure Custody (why : ClientError → Prop) (r : Retry κ) (new : List (Label κ)) (q : Retry κ)
    (report : Report κ) : Prop where
  accounts : Accounts r.held new report.tags q.held
  outcomes : ∀ x ∈ report.outcomes, Final q.closed x.2 ∨ (none, x.1) ∈ r.held ++ new
  lasts : r.closed.isSome → q.closed = r.closed
  nextEntry : r.nextEntry ≤ q.nextEntry
  sound : Sound why q

theorem Accounts.subset {held left : List (Label κ)} {tags : List κ}
    (h : Accounts held new tags left) : left ⊆ held ++ new := by
  obtain ⟨told, -, hperm⟩ := h
  exact fun x hx => hperm.subset (List.mem_append_right told hx)

theorem Custody.of_eq (hr : Sound why r) (hpipeline : q.pipeline = r.pipeline)
    (hparked : q.parked = r.parked) (hclosed : q.closed = r.closed)
    (hnext : r.nextEntry ≤ q.nextEntry) : Custody why r [] q .silent where
  accounts := by
    rw [held, held, hpipeline, hparked]
    exact .refl _
  outcomes := nofun
  lasts _ := hclosed
  nextEntry := hnext
  sound :=
    { numbered := hpipeline ▸ hr.numbered
      sent := hpipeline ▸ hr.sent
      kept := ⟨hparked ▸ hr.kept.rearmed, by rw [hpipeline, hparked, hclosed]; exact hr.kept.closed⟩
      closed := by rw [hpipeline, hclosed]; exact hr.closed }

theorem Custody.refl (hr : Sound why r) : Custody why r [] r .silent :=
  .of_eq hr rfl rfl rfl (Nat.le_refl _)

theorem Custody.andThen {last : Retry κ} {s : Report κ} {more : List (Label κ)}
    (h : Custody why r new q report) (g : Custody why q more last s) :
    Custody why r (new ++ more) last (report.andThen s) where
  accounts := by
    rw [Report.tags_andThen]
    exact h.accounts.trans g.accounts
  outcomes := by
    intro x hx
    rw [Report.outcomes_andThen, List.mem_append] at hx
    rw [← List.append_assoc, List.mem_append]
    cases hx with
    | inl hx => exact (h.outcomes x hx).imp (·.lasts g.lasts) .inl
    | inr hx =>
      refine (g.outcomes x hx).imp_right fun hplain => ?_
      exact (List.mem_append.1 hplain).imp_left fun hheld => h.accounts.subset hheld
  lasts := by
    intro hr
    have hq := h.lasts hr
    exact (g.lasts (hq ▸ hr)).trans hq
  nextEntry := Nat.le_trans h.nextEntry g.nextEntry
  sound := g.sound

theorem Custody.of_perm {before : Retry κ} {old : List (Label κ)}
    (h : Custody why before old q report) (hperm : (before.held ++ old).Perm (r.held ++ new))
    (hclosed : before.closed = r.closed) (hnext : before.nextEntry = r.nextEntry) :
    Custody why r new q report where
  accounts := by
    obtain ⟨told, htags, htold⟩ := h.accounts
    exact ⟨told, htags, htold.trans hperm⟩
  outcomes := by
    intro x hx
    exact (h.outcomes x hx).imp_right fun hplain => hperm.subset hplain
  lasts := hclosed ▸ h.lasts
  nextEntry := hnext ▸ h.nextEntry
  sound := h.sound

theorem exchange {α : Type} {told back flying parked flying' parked' given : List α}
    (hparked : (told ++ parked').Perm (parked ++ back))
    (hflying : (back ++ flying').Perm (flying ++ given)) :
    (told ++ (flying' ++ parked')).Perm (flying ++ parked ++ given) :=
  calc (told ++ (flying' ++ parked')).Perm (flying' ++ (told ++ parked')) :=
        List.perm_append_comm_assoc ..
    List.Perm _ (flying' ++ (parked ++ back)) := hparked.append_left flying'
    List.Perm _ (parked ++ (flying' ++ back)) := List.perm_append_comm_assoc ..
    List.Perm _ (parked ++ (back ++ flying')) := List.perm_append_comm.append_left parked
    List.Perm _ (parked ++ (flying ++ given)) := hflying.append_left parked
    List.Perm _ (flying ++ (parked ++ given)) := List.perm_append_comm_assoc ..
    _ = flying ++ parked ++ given := (List.append_assoc ..).symm

theorem custody_absorb {p : Pipeline (Owner κ)} {rep : Report (Owner κ)}
    {given : List (Nat × Owner κ)} (hr : Sound why r)
    (hsettles : Pipeline.Settles r.pipeline given p rep)
    (hends : Pipeline.Ends why r.pipeline p rep)
    (hgiven : ∀ e, .entry e ∈ given.map Prod.snd → e.staged.stage = .sent) :
    Custody why r (given.map fun x => x.2.label) (r.absorb (p, rep)).1 (r.absorb (p, rep)).2 := by
  -- Once all is closed the cell stays as it is, and with it the reason.
  have hcell : r.closed.isSome → p.cell = r.pipeline.cell :=
    fun hclosed => (hends.kept (hr.closed.1 hclosed)).1
  have hkept : Kept why { r with pipeline := p } := by
    refine ⟨hr.kept.rearmed, fun reason hreason => ?_⟩
    have hsome : r.closed.isSome := by rw [hreason]; rfl
    rw [hcell hsome]
    exact hr.kept.closed reason hreason
  have hfollow := followed_absorb hkept fun hclosed => (hends.brought hclosed).2
  have hpipeline : (r.absorb (p, rep)).1.pipeline = p := hfollow.pipeline
  have howners : (rep.tags ++ owners p).Perm (owners r.pipeline ++ given.map Prod.snd) := by
    have h := hsettles.accounts
    rwa [List.map_append] at h
  exact
    { accounts := by
        obtain ⟨told, htags, htold⟩ := hfollow.accounts
        refine ⟨told, htags, ?_⟩
        have hmoved := howners.map Owner.label
        rw [List.map_append, List.map_append, List.map_map] at hmoved
        rw [held, held, hpipeline]
        exact exchange htold hmoved
      outcomes := by
        intro x hx
        refine (hfollow.outcomes x hx).imp_right fun hplain => ?_
        have howner := howners.subset (List.mem_append_left _ hplain)
        have hlabel : (none, x.1) ∈ (owners r.pipeline ++ given.map Prod.snd).map Owner.label :=
          List.mem_map_of_mem (f := Owner.label) howner
        rw [List.map_append, List.map_map] at hlabel
        rw [held, List.append_assoc]
        cases List.mem_append.1 hlabel with
        | inl hwaiting => exact List.mem_append_left _ hwaiting
        | inr hgiven => exact List.mem_append_right _ (List.mem_append_right _ hgiven)
      lasts := hfollow.lasts
      nextEntry := Nat.le_of_eq hfollow.nextEntry.symm
      sound :=
        { numbered := by
            rw [hpipeline]
            exact hsettles.numbered hr.numbered
          sent := by
            intro e he
            rw [hpipeline] at he
            cases List.mem_append.1 (howners.subset (List.mem_append_right _ he)) with
            | inl he => exact hr.sent e he
            | inr he => exact hgiven e he
          kept := hfollow.kept
          closed := by
            rw [hpipeline]
            refine hfollow.closed.trans ⟨?_, ?_⟩
            · rintro (hclosed | hclosed)
              · rw [Pipeline.state, hcell hclosed]
                exact hr.closed.1 hclosed
              · exact (hends.brought hclosed).1
            · intro hclosed
              exact (hends.told hclosed).imp hr.closed.2 id } }

theorem custody_submitPlain (hr : Sound why r) (now : Nat) (fault : Option String)
    (request : Request) (timeout : Option Nat) (tag : κ) :
    Custody why r [(none, tag)] (r.submitPlain now fault request timeout tag).1
      (r.submitPlain now fault request timeout tag).2 := by
  have hsettles := Pipeline.settles_submit hr.numbered now fault
    ⟨request.type, request.message r.snapshot?, timeout, .plain tag⟩
  exact custody_absorb hr hsettles (Pipeline.ends_submit ..) (by simp)

theorem custody_signal (hr : Sound why r) (s : Signal)
    (hwhy : ∀ reason, s = .closed reason → why reason) :
    Custody why r [] (r.signal s).1 (r.signal s).2 :=
  custody_absorb hr (Pipeline.settles_signal hr.numbered s) (Pipeline.ends_signal r.pipeline s hwhy)
    nofun

theorem custody_ended (hr : Sound why r) (label : Label κ) {outcome : Outcome}
    (hfinal : Final r.closed outcome) : Custody why r [label] r (.ended label.2 outcome) where
  accounts := ⟨[label], rfl, List.perm_append_comm⟩
  outcomes := by
    intro x hx
    obtain rfl : x = (label.2, outcome) := List.mem_singleton.1 hx
    exact .inl hfinal
  lasts _ := rfl
  nextEntry := Nat.le_refl _
  sound := hr

theorem send_of_ready {s : Staged Request} (h : s.stage = .ready) :
    s.send = (⟨s.request, .sent⟩, some s.request) := by
  simp [Staged.send, Staged.advance, h]

theorem custody_submit (hr : Sound why r) {e : Entry κ} (he : e.staged.stage = .ready) (now : Nat)
    (fault : Option String) :
    Custody why r [e.label] (r.submit now fault e).1 (r.submit now fault e).2 := by
  unfold submit
  cases remaining e.deadline now with
  | none =>
    have hfinal : Final r.closed (.error (.timeout .operation)) := .inr (.inl rfl)
    exact custody_ended hr e.label hfinal
  | some timeout =>
    rw [send_of_ready he]
    have hsettles := Pipeline.settles_submit hr.numbered now fault
      ⟨e.staged.request.type, e.staged.request.message r.snapshot?, timeout,
        .entry { e with staged := ⟨e.staged.request, .sent⟩ }⟩
    refine custody_absorb hr hsettles (Pipeline.ends_submit ..) fun x hx => ?_
    obtain rfl := Owner.entry.inj (List.mem_singleton.1 hx)
    rfl

theorem custody_submitAll (hr : Sound why r) (now : Nat) (fault : Option String)
    {es : List (Entry κ)} (hes : ∀ e ∈ es, e.staged.stage = .ready) :
    Custody why r (es.map Entry.label) (r.submitAll now fault es).1
      (r.submitAll now fault es).2 := by
  induction es generalizing r with
  | nil => exact .refl hr
  | cons e es ih =>
    obtain ⟨he, hes⟩ := List.forall_mem_cons.1 hes
    obtain ⟨deadlines, hunscheduled⟩ := unschedule_eq r e
    have hfirst : Custody why r [] (r.unschedule e) .silent := by
      rw [hunscheduled]
      exact .of_eq hr rfl rfl rfl (Nat.le_refl _)
    have hsent := hfirst.andThen (custody_submit hfirst.sound he now fault)
    have hall := hsent.andThen (ih hsent.sound hes)
    rw [Report.silent_andThen] at hall
    exact hall

theorem Kept.filter (h : Kept why r) (keep : Entry κ → Bool) :
    Kept why { r with parked := r.parked.filter keep } := by
  refine ⟨fun e he => h.rearmed e (List.mem_filter.1 he).1, fun reason hreason => ?_⟩
  obtain ⟨hwhy, hterminal, hparked⟩ := h.closed reason hreason
  exact ⟨hwhy, hterminal, by rw [hparked]; rfl⟩

theorem Sound.filter (h : Sound why r) (keep : Entry κ → Bool) :
    Sound why { r with parked := r.parked.filter keep } where
  numbered := h.numbered
  sent := h.sent
  kept := h.kept.filter keep
  closed := h.closed

theorem isReady_iff {e : Entry κ} : isReady e = true ↔ e.staged.stage = .ready := beq_iff_eq

theorem held_filter (r : Retry κ) (take : Entry κ → Bool) :
    (held { r with parked := r.parked.filter (!take ·) } ++
      (r.parked.filter take).map Entry.label).Perm r.held := by
  have hparts := (List.filter_append_perm take r.parked).map Entry.label
  rw [List.map_append] at hparts
  rw [held, held, List.append_assoc]
  exact (List.perm_append_comm.trans hparts).append_left _

theorem custody_resubmit (hr : Sound why r) (now : Nat) (fault : Option String) :
    Custody why r [] (r.resubmit now fault).1 (r.resubmit now fault).2 := by
  have hready : ∀ e ∈ r.parked.filter isReady, e.staged.stage = .ready :=
    fun e he => isReady_iff.1 (List.mem_filter.1 he).2
  have hall := custody_submitAll (hr.filter (!isReady ·)) now fault hready
  refine hall.of_perm ?_ rfl rfl
  rw [List.append_nil]
  exact held_filter r isReady

theorem custody_told (hr : Sound why r) (take : Entry κ → Bool) {outcome : Outcome}
    (hfinal : Final r.closed outcome) :
    Custody why r [] { r with parked := r.parked.filter (!take ·) }
      ⟨(r.parked.filter take).map fun e => .ended e.tag outcome, [], false⟩ := by
  have houtcomes : (⟨(r.parked.filter take).map fun e => .ended e.tag outcome, [], false⟩ :
      Report κ).outcomes = (r.parked.filter take).map fun e => (e.tag, outcome) := by
    simp [Report.outcomes]
  exact
    { accounts := by
        refine ⟨(r.parked.filter take).map Entry.label, ?_, ?_⟩
        · simp [Report.tags, houtcomes, Entry.label, Function.comp_def]
        · rw [List.append_nil]
          exact List.perm_append_comm.trans (held_filter r take)
      outcomes := by
        intro x hx
        rw [houtcomes] at hx
        obtain ⟨e, -, rfl⟩ := List.mem_map.1 hx
        exact .inl hfinal
      lasts := fun _ => rfl
      nextEntry := Nat.le_refl _
      sound := hr.filter _ }

theorem preflightDone_ne_sent {s : Staged Request} (h : s.stage ≠ .sent) :
    s.preflightDone.1.stage ≠ .sent := by
  unfold Staged.preflightDone Staged.advance
  split
  · exact nofun
  · exact h

theorem custody_preflightDone (hr : Sound why r) : Custody why r [] r.preflightDone .silent where
  accounts := by
    have hlabels : r.preflightDone.parked.map Entry.label = r.parked.map Entry.label := by
      rw [preflightDone, List.map_map]
      rfl
    rw [held, held, hlabels]
    exact .refl _
  outcomes := nofun
  lasts _ := rfl
  nextEntry := Nat.le_refl _
  sound :=
    { numbered := hr.numbered
      sent := hr.sent
      kept := by
        refine ⟨fun e he => ?_, fun reason hreason => ?_⟩
        · obtain ⟨x, hx, rfl⟩ := List.mem_map.1 he
          exact preflightDone_ne_sent (hr.kept.rearmed x hx)
        · obtain ⟨hwhy, hterminal, hparked⟩ := hr.kept.closed reason hreason
          exact ⟨hwhy, hterminal, by rw [preflightDone, hparked]; rfl⟩
      closed := hr.closed }

theorem custody_replayAfter (hr : Sound why r) (now : Nat) (fault : Option String)
    (refreshed : Except ClientError Catalog.Snapshot) :
    Custody why r [] (r.replayAfter now fault refreshed).1
      (r.replayAfter now fault refreshed).2 := by
  cases refreshed with
  | ok s =>
    have hinstalled : Custody why r [] (r.install s) .silent :=
      .of_eq hr rfl rfl rfl (Nat.le_refl _)
    have hready := hinstalled.andThen (custody_preflightDone hinstalled.sound)
    have hall := hready.andThen (custody_resubmit hready.sound now fault)
    rwa [Report.silent_andThen, Report.silent_andThen] at hall
  | error e =>
    cases htransient : e.isTransient with
    | true =>
      simp only [replayAfter, htransient, if_true]
      exact .refl hr
    | false =>
      have hfinal : Final r.closed (.error e) := .inl htransient
      simp only [replayAfter, htransient, Bool.false_eq_true, if_false]
      exact custody_told hr isWaiting hfinal

theorem custody_replay (hr : Sound why r) (now : Nat) (fault : Option String)
    (refreshed : Except ClientError Catalog.Snapshot) :
    Custody why r [] (r.replay now fault refreshed).1 (r.replay now fault refreshed).2 := by
  have hbegun : Custody why r [] { r with replays := r.replays - 1 } .silent :=
    .of_eq hr rfl rfl rfl (Nat.le_refl _)
  unfold replay
  simp only
  split
  · have hall := hbegun.andThen (custody_replayAfter hbegun.sound now fault refreshed)
    rwa [Report.silent_andThen] at hall
  · have hall := hbegun.andThen (custody_resubmit hbegun.sound now fault)
    rwa [Report.silent_andThen] at hall

theorem filter_eq_singleton {es : List (Entry κ)} (hes : (es.map Entry.id).Nodup) {id : Nat}
    {e : Entry κ} (he : es.find? (·.id == id) = some e) : es.filter (·.id == id) = [e] := by
  have hcount := List.nodup_iff_count_le_one.1 hes id
  rw [List.count, List.countP_map, List.countP_eq_length_filter] at hcount
  have hhead := List.head?_filter (p := fun x : Entry κ => x.id == id) (l := es)
  rw [he] at hhead
  match hfilter : es.filter (·.id == id) with
  | [] =>
    rw [hfilter] at hhead
    cases hhead
  | [x] =>
    rw [hfilter] at hhead
    exact hfilter.trans (congrArg (fun y => [y]) (Option.some.inj hhead))
  | x :: y :: rest =>
    have hlength : (es.filter (·.id == id)).length ≤ 1 := hcount
    rw [hfilter] at hlength
    simp at hlength

theorem custody_expire (hr : Sound why r) (hparked : (r.parked.map Entry.id).Nodup) (id : Nat) :
    Custody why r [] (r.expire id).1 (r.expire id).2 := by
  unfold expire
  split
  · rename_i e he
    have hfinal : Final r.closed (.error (.timeout .operation)) := .inr (.inl rfl)
    have htold := custody_told hr (·.id == id) hfinal
    rw [filter_eq_singleton hparked he] at htold
    exact htold
  · exact .refl hr

theorem nodup_parked_expire (hparked : (r.parked.map Entry.id).Nodup) (id : Nat) :
    ((r.expire id).1.parked.map Entry.id).Nodup := by
  unfold expire
  split
  · exact hparked.sublist (List.filter_sublist.map _)
  · exact hparked

theorem custody_expireAll (hr : Sound why r) (hparked : (r.parked.map Entry.id).Nodup)
    (ids : List Nat) : Custody why r [] (r.expireAll ids).1 (r.expireAll ids).2 := by
  induction ids generalizing r with
  | nil => exact .refl hr
  | cons id ids ih =>
    have hfirst := custody_expire hr hparked id
    exact hfirst.andThen (ih hfirst.sound (nodup_parked_expire hparked id))

theorem custody_tick (hr : Sound why r) (hparked : (r.parked.map Entry.id).Nodup) (now : Nat) :
    Custody why r [] (r.tick now).1 (r.tick now).2 := by
  have hserved : Custody why r [] { r with deadlines := (r.deadlines.service now).1 } .silent :=
    .of_eq hr rfl rfl rfl (Nat.le_refl _)
  have hall := hserved.andThen (custody_expireAll hserved.sound hparked (r.deadlines.service now).2)
  rwa [Report.silent_andThen] at hall

end TupleClient.Retry
