import TupleClient.Proofs.Retry.Steps

/-!
The operations that are tried until they end, wherever they are: none is there twice, whatever is
done with them, and none of them changes its number, its submitter or its deadline.
-/
namespace TupleClient.Retry

variable {κ : Type}

/-- What stays the same from try to try. -/
structure Order (κ : Type) where
  id : Nat
  tag : κ
  deadline : Option Nat
deriving DecidableEq

def Entry.order (e : Entry κ) : Order κ := ⟨e.id, e.tag, e.deadline⟩

def ordersOf (os : List (Owner κ)) : List (Order κ) :=
  (os.filterMap Owner.entry?).map Entry.order

@[simp] theorem ordersOf_nil : ordersOf ([] : List (Owner κ)) = [] := rfl

@[simp] theorem ordersOf_plain (tag : κ) (os : List (Owner κ)) :
    ordersOf (.plain tag :: os) = ordersOf os := rfl

@[simp] theorem ordersOf_entry (e : Entry κ) (os : List (Owner κ)) :
    ordersOf (.entry e :: os) = e.order :: ordersOf os := rfl

theorem mem_ordersOf {o : Order κ} {os : List (Owner κ)} :
    o ∈ ordersOf os ↔ ∃ e, .entry e ∈ os ∧ e.order = o := by
  simp only [ordersOf, List.mem_map, List.mem_filterMap]
  constructor
  · rintro ⟨e, ⟨_ | tag, ho, he⟩, rfl⟩
    · cases he
      exact ⟨e, ho, rfl⟩
    · cases he
  · rintro ⟨e, he, rfl⟩
    exact ⟨e, ⟨.entry e, he, rfl⟩, rfl⟩

def returned (back : List (Happening (Owner κ))) : List (Owner κ) :=
  (⟨back, [], false⟩ : Report (Owner κ)).tags

@[simp] theorem returned_nil : returned ([] : List (Happening (Owner κ))) = [] := rfl

@[simp] theorem returned_entered (s : Lifecycle.State) (back : List (Happening (Owner κ))) :
    returned (.entered s :: back) = returned back := rfl

@[simp] theorem returned_ended (o : Owner κ) (outcome : Outcome)
    (back : List (Happening (Owner κ))) :
    returned (.ended o outcome :: back) = o :: returned back := rfl

@[simp] theorem returned_happenings (report : Report (Owner κ)) :
    returned report.happenings = report.tags := rfl

/-- All that is in flight, has come back, is on its way out or is parked. -/
def Stand.orders (x : Stand κ) : List (Order κ) :=
  ordersOf (owners x.retry.pipeline) ++ ordersOf (returned x.back) ++ x.out.map Entry.order ++
    x.retry.parked.map Entry.order

def Incident.orders (id : Nat) : Incident κ → List (Order κ)
  | .event (.execute now _ _ timeout tag) => [⟨id, tag, timeout.map (now + ·)⟩]
  | _ => []

inductive Moves (i : Incident κ) (n : Nat) (x y : Stand κ) : Prop where
  | kept (gone : List (Order κ)) (h : (gone ++ y.orders).Perm x.orders)
      (hnext : y.retry.nextEntry = x.retry.nextEntry)
  | gained (o : Order κ) (ho : o ∈ i.orders n) (hn : x.retry.nextEntry = n)
      (h : y.orders.Perm (o :: x.orders))
      (hnext : y.retry.nextEntry = x.retry.nextEntry + 1)

/-- Nothing is there twice, what is parked or on its way has not been sent, what is in flight or has
come back has, and only those whose catalog is read wait for it. -/
structure Tidy (x : Stand κ) : Prop where
  numbered : x.retry.pipeline.Numbered
  distinct : (x.orders.map Order.id).Nodup
  below : ∀ o ∈ x.orders, o.id < x.retry.nextEntry
  sent : ∀ e, .entry e ∈ owners x.retry.pipeline ++ returned x.back → e.staged.stage = .sent
  ready : ∀ e ∈ x.out, e.staged.stage = .ready
  rearmed : ∀ e ∈ x.retry.parked, e.staged.stage ≠ .sent
  waiting : ∀ e ∈ x.retry.parked, e.staged.stage = .waiting → x.retry.refreshes = true

variable {i : Incident κ} {n : Nat} {x y z : Stand κ} {notes : List (Note κ)} {report : Report κ}
  {r : Retry κ} {p : Pipeline (Owner κ)}

theorem Moves.of_eq (h : y.orders = x.orders) (hnext : y.retry.nextEntry = x.retry.nextEntry) :
    Moves i n x y :=
  .kept [] (by simp [h]) hnext

theorem settles_meets (hp : p.Numbered) (i : Incident κ) :
    Pipeline.Settles p [] (meets p i).1 (meets p i).2 := by
  unfold meets
  split
  · exact Pipeline.settles_signal hp _
  · exact .refl p
  · unfold Pipeline.lose
    split
    · exact .of_eq rfl rfl rfl rfl
    · exact .refl p
  · exact Pipeline.settles_complete hp _ _
  · exact Pipeline.settles_teardown p _

theorem orders_of_settles {q : Pipeline (Owner κ)} {report : Report (Owner κ)}
    {given : List (Nat × Owner κ)} (h : Pipeline.Settles p given q report) :
    (ordersOf report.tags ++ ordersOf (owners q)).Perm
      (ordersOf (owners p) ++ ordersOf (given.map Prod.snd)) := by
  have hperm := (h.accounts.filterMap Owner.entry?).map Entry.order
  simpa [ordersOf, owners] using hperm

def rearmed (r : Retry κ) (e : Entry κ) (err : ClientError) : Entry κ :=
  { e with staged := (e.staged.rearm (r.isStale err)).1 }

theorem park_eq (hclosed : r.closed = none) (alive : Bool) (e : Entry κ) (err : ClientError) :
    r.park alive e err =
      ({ r with
          parked := r.parked ++ [r.rearmed e err]
          deadlines := (r.schedule e).deadlines
          replays :=
            if alive && (r.isStale err || err.isConnection) then r.replays + 1 else r.replays },
        .silent) := by
  simp only [park, hclosed]
  unfold schedule callReplay rearmed
  cases e.deadline <;> dsimp only <;> split <;> simp

/-- Where an entry is after it has come back: with those who are told, or parked. -/
theorem settle_cases (alive : Bool) (e : Entry κ) (outcome : Outcome) :
    (r.settle alive e outcome).1 = r ∨
      ∃ err, outcome = .error err ∧ err.isTransient = true ∧ r.closed = none ∧
        r.settle alive e outcome =
          ({ r with
              parked := r.parked ++ [r.rearmed e err]
              deadlines := (r.schedule e).deadlines
              replays :=
                if alive && (r.isStale err || err.isConnection) then r.replays + 1
                else r.replays },
            .silent) := by
  cases outcome with
  | ok response => exact .inl rfl
  | error err =>
    by_cases htransient : err.isTransient = true
    · rw [settle, if_pos htransient]
      cases hclosed : r.closed with
      | some reason =>
        rw [park_of_closed hclosed]
        exact .inl rfl
      | none => exact .inr ⟨err, rfl, htransient, rfl, hclosed ▸ park_eq hclosed alive e err⟩
    · rw [settle, if_neg htransient]
      exact .inl rfl

theorem expire_eq (r : Retry κ) (id : Nat) :
    (r.expire id).1 = { r with parked := r.parked.filter (·.id ≠ id) } := by
  unfold expire
  split
  · simp [bne, beq_eq_decide]
  · rename_i hnone
    have hkept : r.parked.filter (·.id ≠ id) = r.parked := by
      simpa using hnone
    rw [hkept]

theorem expireAll_eq (r : Retry κ) (ids : List Nat) :
    (r.expireAll ids).1 = { r with parked := r.parked.filter (·.id ∉ ids) } := by
  induction ids generalizing r with
  | nil => simp [expireAll]
  | cons id ids ih =>
    rw [show (r.expireAll (id :: ids)).1 = ((r.expire id).1.expireAll ids).1 from rfl, ih,
      expire_eq]
    simp [List.filter_filter, Bool.and_comm]

theorem perm_filter_not (parked : List (Entry κ)) (keep : Entry κ → Bool) :
    ((parked.filter (!keep ·)).map Entry.order ++ (parked.filter keep).map Entry.order).Perm
      (parked.map Entry.order) := by
  rw [← List.map_append]
  exact (List.perm_append_comm.trans (List.filter_append_perm keep parked)).map _

theorem Moves.of_pipeline_eq (gone : List (Order κ))
    (hpipeline : y.retry.pipeline = x.retry.pipeline)
    (hnext : y.retry.nextEntry = x.retry.nextEntry)
    (h : (gone ++ (ordersOf (returned y.back) ++ y.out.map Entry.order ++
        y.retry.parked.map Entry.order)).Perm
      (ordersOf (returned x.back) ++ x.out.map Entry.order ++ x.retry.parked.map Entry.order)) :
    Moves i n x y := by
  refine .kept gone ?_ hnext
  have hall := h.append_left (ordersOf (owners x.retry.pipeline))
  simp only [Stand.orders, hpipeline, List.append_assoc] at hall ⊢
  exact (List.perm_append_comm_assoc ..).trans hall

theorem moves_filter {alive replaying after : Bool} {q : Retry κ} (keep : Entry κ → Bool)
    (hpipeline : q.pipeline = r.pipeline) (hnext : q.nextEntry = r.nextEntry)
    (hparked : q.parked = r.parked.filter keep) :
    Moves i n ⟨r, alive, [], [], replaying⟩ ⟨q, alive, [], [], after⟩ := by
  refine .of_pipeline_eq ((r.parked.filter (!keep ·)).map Entry.order) hpipeline hnext ?_
  rw [hparked]
  exact perm_filter_not r.parked keep

theorem moves_absorb {alive after replaying : Bool} {q : Pipeline (Owner κ)}
    {report : Report (Owner κ)} {given : List (Nat × Owner κ)} {before out : List (Entry κ)}
    (h : Pipeline.Settles r.pipeline given q report)
    (hgiven : (ordersOf (given.map Prod.snd) ++ out.map Entry.order).Perm
      (before.map Entry.order)) :
    Moves i n ⟨r, alive, [], before, replaying⟩
      ⟨{ r with pipeline := q }, after, report.happenings, out, replaying⟩ := by
  refine .kept [] ?_ rfl
  have hflying := (orders_of_settles h).append_right
    (out.map Entry.order ++ r.parked.map Entry.order)
  have hgiven := (hgiven.append_right (r.parked.map Entry.order)).append_left
    (ordersOf (owners r.pipeline))
  simp only [List.append_assoc] at hflying hgiven
  simp only [Stand.orders, List.nil_append, List.append_assoc]
  exact (List.perm_append_comm_assoc ..).trans (hflying.trans hgiven)

theorem moves_entered {alive replaying : Bool} {back : List (Happening (Owner κ))}
    {out : List (Entry κ)} {s : Lifecycle.State} :
    Moves i n ⟨r, alive, .entered s :: back, out, replaying⟩
      ⟨(r.entered s).1, s.isAlive, back, out, replaying⟩ := by
  by_cases hclosed : s = .closed
  · subst hclosed
    refine .of_pipeline_eq (r.parked.map Entry.order) rfl rfl ?_
    have hgone : (r.parked.map Entry.order ++
        (ordersOf (returned back) ++ out.map Entry.order)).Perm _ := List.perm_append_comm
    simpa [Retry.entered, failAll] using hgone
  · have hkept : (r.entered s).1.pipeline = r.pipeline ∧
        (r.entered s).1.nextEntry = r.nextEntry ∧ (r.entered s).1.parked = r.parked := by
      cases s <;> first | exact absurd rfl hclosed | exact ⟨rfl, rfl, rfl⟩
    obtain ⟨hpipeline, hnext, hparked⟩ := hkept
    refine .of_pipeline_eq [] hpipeline hnext ?_
    rw [hparked]
    exact .refl _

theorem moves_settled {alive replaying : Bool} {back : List (Happening (Owner κ))}
    {out : List (Entry κ)} {e : Entry κ} {outcome : Outcome} :
    Moves i n ⟨r, alive, .ended (.entry e) outcome :: back, out, replaying⟩
      ⟨(r.settle alive e outcome).1, alive, back, out, replaying⟩ := by
  obtain hsame | ⟨err, -, -, -, hparked⟩ := settle_cases (r := r) alive e outcome
  · rw [hsame]
    exact .of_pipeline_eq [e.order] rfl rfl (.refl _)
  · rw [hparked]
    refine .of_pipeline_eq [] rfl rfl ?_
    have hlast : ((ordersOf (returned back) ++ out.map Entry.order ++
        r.parked.map Entry.order) ++ [e.order]).Perm _ := List.perm_append_comm
    simpa [rearmed, Entry.order] using hlast

theorem Part.moves (h : Part i n x notes report y) (hx : x.retry.pipeline.Numbered) :
    Moves i n x y := by
  cases h with
  | met => exact moves_absorb (settles_meets hx i) (by simp)
  | @plain r alive now fault request timeout tag s hi hs =>
    exact moves_absorb (Pipeline.settles_submit hx now fault s) (by simp [hs])
  | @sent r alive replaying out now fault s e hnow he hs =>
    refine moves_absorb (Pipeline.settles_submit hx now fault s) ?_
    simp [(submission?_eq_some he hs).1, Entry.order]
  | @overdue r alive replaying out now e hnow he =>
    exact .of_pipeline_eq [e.order] rfl rfl (.refl _)
  | entered => exact moves_entered
  | told => exact .of_eq rfl rfl
  | settled => exact moves_settled
  | @accepted r alive now fault request timeout tag hi hn =>
    subst hi hn
    refine .gained ⟨r.nextEntry, tag, timeout.map (now + ·)⟩ (by simp [Incident.orders]) rfl ?_ rfl
    simp [Stand.orders, Entry.order]
  | begun => exact .of_eq rfl rfl
  | @read r alive replaying s =>
    refine .of_pipeline_eq [] rfl rfl ?_
    have hsame : ((r.install s).preflightDone.parked).map Entry.order =
        r.parked.map Entry.order := by
      simp [preflightDone, install, Entry.order, Function.comp_def]
    rw [hsame]
    exact .refl _
  | @unread r alive replaying event e hi he hreplaying =>
    by_cases htransient : e.isTransient = true
    · simp only [htransient, if_true]
      exact .of_eq rfl rfl
    · simp only [htransient]
      exact moves_filter (!isWaiting ·) rfl rfl rfl
  | @taken r alive replaying =>
    refine .of_pipeline_eq [] rfl rfl ?_
    simpa using List.perm_append_comm.trans (perm_filter_not r.parked isReady)
  | @unscheduled r alive replaying out e =>
    obtain ⟨deadlines, hunscheduled⟩ := unschedule_eq r e
    rw [hunscheduled]
    exact .of_eq rfl rfl
  | @expired r alive id hi =>
    rw [expire_eq]
    exact moves_filter _ rfl rfl rfl
  | @ticked r alive now hi =>
    rw [tick, expireAll_eq]
    exact moves_filter _ rfl rfl rfl

theorem id_of_mem_orders {o : Order κ} {id : Nat} (h : o ∈ i.orders id) : o.id = id := by
  unfold Incident.orders at h
  split at h <;> simp at h
  simp [h]

theorem Moves.subset (h : Moves i n x y) : y.orders ⊆ x.orders ++ i.orders n := by
  intro o ho
  rw [List.mem_append]
  cases h with
  | kept gone h hnext => exact .inl (h.subset (List.mem_append_right gone ho))
  | gained new hnew hn h hnext =>
    rcases List.mem_cons.1 (h.subset ho) with rfl | ho
    · exact .inr hnew
    · exact .inl ho

theorem Moves.distinct (h : Moves i n x y) (hx : (x.orders.map Order.id).Nodup)
    (hbelow : ∀ o ∈ x.orders, o.id < x.retry.nextEntry) :
    (y.orders.map Order.id).Nodup ∧ ∀ o ∈ y.orders, o.id < y.retry.nextEntry := by
  cases h with
  | kept gone h hnext =>
    have hall := (h.map Order.id).nodup_iff.2 hx
    rw [List.map_append] at hall
    refine ⟨(List.nodup_append.1 hall).2.1, fun o ho => ?_⟩
    exact hnext ▸ hbelow o (h.subset (List.mem_append_right gone ho))
  | gained new hnew hn h hnext =>
    have hid := id_of_mem_orders hnew
    have hfresh : new.id ∉ x.orders.map Order.id := by
      rintro hmem
      obtain ⟨o, ho, hsame⟩ := List.mem_map.1 hmem
      have hlt := hbelow o ho
      omega
    refine ⟨(h.map Order.id).nodup_iff.2 (List.nodup_cons.2 ⟨hfresh, hx⟩), fun o ho => ?_⟩
    rcases List.mem_cons.1 (h.subset ho) with rfl | ho
    · omega
    · have hlt := hbelow o ho
      omega

theorem forall_of_settles {P : Owner κ → Prop} {q : Pipeline (Owner κ)}
    {report : Report (Owner κ)} {given : List (Nat × Owner κ)}
    (h : Pipeline.Settles p given q report) (hp : ∀ o ∈ owners p, P o)
    (hgiven : ∀ o ∈ given.map Prod.snd, P o) : ∀ o ∈ owners q ++ report.tags, P o := by
  intro o ho
  have haccounts := h.accounts
  rw [List.map_append] at haccounts
  have hmem := haccounts.subset (List.perm_append_comm.subset ho)
  rcases List.mem_append.1 hmem with hmem | hmem
  · exact hp o hmem
  · exact hgiven o hmem

theorem Tidy.absorb {alive after replaying : Bool} {q : Pipeline (Owner κ)}
    {report : Report (Owner κ)} {given : List (Nat × Owner κ)} {before out : List (Entry κ)}
    (hx : Tidy ⟨r, alive, [], before, replaying⟩)
    (hmoves : Moves i n ⟨r, alive, [], before, replaying⟩
      ⟨{ r with pipeline := q }, after, report.happenings, out, replaying⟩)
    (h : Pipeline.Settles r.pipeline given q report)
    (hgiven : ∀ e, .entry e ∈ given.map Prod.snd → e.staged.stage = .sent)
    (hout : out ⊆ before) :
    Tidy ⟨{ r with pipeline := q }, after, report.happenings, out, replaying⟩ := by
  obtain ⟨hdistinct, hbelow⟩ := hmoves.distinct hx.distinct hx.below
  have hsent := forall_of_settles (P := fun o => ∀ e, o = .entry e → e.staged.stage = .sent) h
    (fun o ho e he => hx.sent e (he ▸ List.mem_append_left _ ho))
    fun o ho e he => hgiven e (he ▸ ho)
  exact
    { numbered := h.numbered hx.numbered
      distinct := hdistinct
      below := hbelow
      sent := fun e he => hsent _ he e rfl
      ready := fun e he => hx.ready e (hout he)
      rearmed := hx.rearmed
      waiting := hx.waiting }

theorem Tidy.of_pipeline_eq (hx : Tidy x) (hmoves : Moves i n x y)
    (hpipeline : y.retry.pipeline = x.retry.pipeline)
    (hback : returned y.back ⊆ returned x.back)
    (hout : ∀ e ∈ y.out, e.staged.stage = .ready)
    (hparked : ∀ e ∈ y.retry.parked, e.staged.stage ≠ .sent ∧
      (e.staged.stage = .waiting → y.retry.refreshes = true)) : Tidy y := by
  obtain ⟨hdistinct, hbelow⟩ := hmoves.distinct hx.distinct hx.below
  exact
    { numbered := hpipeline ▸ hx.numbered
      distinct := hdistinct
      below := hbelow
      sent := by
        intro e he
        refine hx.sent e ?_
        rw [hpipeline] at he
        exact (List.mem_append.1 he).elim (List.mem_append_left _)
          fun hmem => List.mem_append_right _ (hback hmem)
      ready := hout
      rearmed := fun e he => (hparked e he).1
      waiting := fun e he => (hparked e he).2 }

theorem Tidy.parked (hx : Tidy x) {e : Entry κ} (he : e ∈ x.retry.parked) :
    e.staged.stage ≠ .sent ∧ (e.staged.stage = .waiting → x.retry.refreshes = true) :=
  ⟨hx.rearmed e he, hx.waiting e he⟩

theorem Tidy.id_ne {o : Order κ} {f : Entry κ} (hx : Tidy x)
    (ho : o ∈ ordersOf (owners x.retry.pipeline) ++ ordersOf (returned x.back) ++
      x.out.map Entry.order) (hf : f ∈ x.retry.parked) : o.id ≠ f.id := by
  have hdistinct := hx.distinct
  rw [Stand.orders, List.map_append, List.nodup_append] at hdistinct
  have hparked : f.order ∈ x.retry.parked.map Entry.order := List.mem_map_of_mem hf
  exact hdistinct.2.2 o.id (List.mem_map_of_mem ho) f.id (List.mem_map_of_mem hparked)

theorem rearm_waiting {s : Staged Request} (hs : s.stage = .sent) {preflight : Bool}
    (h : (s.rearm preflight).1.stage = .waiting) : preflight = true := by
  rw [rearm_of_sent hs] at h
  cases preflight <;> simp at h ⊢

/-- What comes back has been sent, so it waits for a catalog only if that is to be read again. -/
theorem Tidy.parked_settle {alive replaying : Bool} {back : List (Happening (Owner κ))}
    {out : List (Entry κ)} {e : Entry κ} {outcome : Outcome}
    (hx : Tidy ⟨r, alive, .ended (.entry e) outcome :: back, out, replaying⟩) :
    ∀ f ∈ (r.settle alive e outcome).1.parked, f.staged.stage ≠ .sent ∧
      (f.staged.stage = .waiting → (r.settle alive e outcome).1.refreshes = true) := by
  obtain hsame | ⟨err, -, -, -, hparked⟩ := settle_cases (r := r) alive e outcome
  · rw [hsame]
    exact fun f => hx.parked
  · rw [hparked]
    intro f hf
    rcases List.mem_append.1 hf with hf | hf
    · exact hx.parked hf
    · obtain rfl := List.mem_singleton.1 hf
      have hsent : e.staged.stage = .sent := hx.sent e (by simp)
      refine ⟨rearm_ne_sent e.staged _, fun hwaiting => ?_⟩
      have hstale := rearm_waiting hsent hwaiting
      rw [isStale, Bool.and_eq_true] at hstale
      exact hstale.1

theorem Tidy.ready_of_read {alive replaying : Bool} {back : List (Happening (Owner κ))}
    {out : List (Entry κ)} (hx : Tidy ⟨r, alive, back, out, replaying⟩) (s : Catalog.Snapshot) :
    ∀ e ∈ (r.install s).preflightDone.parked, e.staged.stage = .ready := by
  intro e he
  obtain ⟨f, hf, rfl⟩ := List.mem_map.1 he
  refine preflightDone_ready ?_
  cases hstage : f.staged.stage with
  | sent => exact absurd hstage (hx.rearmed f hf)
  | ready => exact .inr rfl
  | waiting => exact .inl rfl

theorem Part.tidy (h : Part i n x notes report y) (hx : Tidy x) : Tidy y := by
  have hmoves := h.moves hx.numbered
  cases h with
  | met => exact hx.absorb hmoves (settles_meets hx.numbered i) (by simp) (List.Subset.refl _)
  | @plain r alive now fault request timeout tag s hi hs =>
    exact hx.absorb hmoves (Pipeline.settles_submit hx.numbered now fault s) (by simp [hs])
      (List.Subset.refl _)
  | @sent r alive replaying out now fault s e hnow he hs =>
    refine hx.absorb hmoves (Pipeline.settles_submit hx.numbered now fault s) ?_
      (List.subset_cons_self e out)
    simp [(submission?_eq_some he hs).1]
  | overdue hnow he =>
    exact hx.of_pipeline_eq hmoves rfl (List.Subset.refl _) (List.forall_mem_cons.1 hx.ready).2
      fun e => hx.parked
  | @entered r alive replaying back out s =>
    refine hx.of_pipeline_eq hmoves (pipeline_entered r s) (List.Subset.refl _) hx.ready ?_
    cases s with
    | closed => simp [Retry.entered, failAll]
    | _ => exact fun e => hx.parked
  | told =>
    exact hx.of_pipeline_eq hmoves rfl (List.subset_cons_self _ _) hx.ready fun e => hx.parked
  | @settled r alive replaying back out e outcome =>
    exact hx.of_pipeline_eq hmoves (pipeline_settle r alive e outcome)
      (List.subset_cons_self _ _) hx.ready hx.parked_settle
  | accepted hi hn =>
    exact hx.of_pipeline_eq hmoves rfl (List.Subset.refl _) (by simp [Staged.ready])
      fun e => hx.parked
  | begun => exact hx.of_pipeline_eq hmoves rfl (List.Subset.refl _) hx.ready fun e => hx.parked
  | @read r alive replaying s =>
    refine hx.of_pipeline_eq hmoves rfl (List.Subset.refl _) hx.ready fun e he => ?_
    simp [hx.ready_of_read s e he]
  | @unread r alive replaying event e hi he hreplaying =>
    by_cases htransient : e.isTransient = true
    · simp only [htransient, if_true] at hmoves ⊢
      exact hx.of_pipeline_eq hmoves rfl (List.Subset.refl _) hx.ready fun e => hx.parked
    · simp only [htransient] at hmoves ⊢
      exact hx.of_pipeline_eq hmoves rfl (List.Subset.refl _) hx.ready
        fun e he => hx.parked (List.mem_filter.1 he).1
  | taken =>
    exact hx.of_pipeline_eq hmoves rfl (List.Subset.refl _)
      (fun e he => isReady_iff.1 (List.mem_filter.1 he).2)
      fun e he => hx.parked (List.mem_filter.1 he).1
  | @unscheduled r alive replaying out e =>
    obtain ⟨deadlines, hunscheduled⟩ := unschedule_eq r e
    rw [hunscheduled] at hmoves ⊢
    exact hx.of_pipeline_eq hmoves rfl (List.Subset.refl _) hx.ready fun e => hx.parked
  | @expired r alive id hi =>
    rw [expire_eq] at hmoves ⊢
    exact hx.of_pipeline_eq hmoves rfl (List.Subset.refl _) hx.ready
      fun e he => hx.parked (List.mem_filter.1 he).1
  | @ticked r alive now hi =>
    rw [tick, expireAll_eq] at hmoves ⊢
    exact hx.of_pipeline_eq hmoves rfl (List.Subset.refl _) hx.ready
      fun e he => hx.parked (List.mem_filter.1 he).1

theorem Parts.tidy (h : Parts i n x notes report y) (hx : Tidy x) : Tidy y := by
  induction h with
  | none x => exact hx
  | more first _ ih => exact ih (first.tidy hx)

theorem tidy_create (settings : PipelineSettings) (catalog : Option Catalog.Cache)
    (refreshes alive : Bool) :
    Tidy (⟨create settings catalog refreshes, alive, [], [], false⟩ : Stand κ) where
  numbered := Pipeline.numbered_create settings
  distinct := by simp [Stand.orders, create, Pipeline.create, owners, Pipeline.entries]
  below := by simp [Stand.orders, create, Pipeline.create, owners, Pipeline.entries]
  sent := by simp [create, Pipeline.create, owners, Pipeline.entries]
  ready := by simp
  rearmed := by simp [create]
  waiting := by simp [create]

end TupleClient.Retry
