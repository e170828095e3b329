import TupleClient.Proofs.Pipeline.Outcomes
import TupleClient.Proofs.Retry.Custody

/-!
Where an operation is that is tried until it ends: in flight once, or parked once, or at its end, of
which its submitter was told once.
-/
namespace TupleClient.Retry

variable {κ : Type} {why : ClientError → Prop} {r q : Retry κ} {report : Report κ}
  {new : List (Label κ)}

def gives (r : Retry κ) : Event κ → List (Label κ)
  | .execute now fault request timeout tag =>
    [(some (r.execute now fault request timeout tag).2.2, tag)]
  | .plain _ _ _ _ tag => [(none, tag)]
  | _ => []

/-- The operations that come in on the way, the first one first. -/
def given (r : Retry κ) : List (Event κ) → List (Label κ)
  | [] => []
  | e :: es => r.gives e ++ (r.step e).1.given es

def ids (labels : List (Label κ)) : List Nat := labels.filterMap Prod.fst

structure Entered (r : Retry κ) : Prop where
  distinct : (ids r.held).Nodup
  lt_nextEntry : ∀ id ∈ ids r.held, id < r.nextEntry

theorem Entered.parked (h : Entered r) : (r.parked.map Entry.id).Nodup := by
  have hids : ids (r.parked.map Entry.label) = r.parked.map Entry.id := by
    rw [ids, List.filterMap_map, ← List.filterMap_eq_map]
    rfl
  have hdistinct := h.distinct
  rw [held, ids, List.filterMap_append, List.nodup_append] at hdistinct
  exact hids ▸ hdistinct.2.1

theorem Custody.entered (h : Custody why r new q report) (hnew : (ids (r.held ++ new)).Nodup)
    (hlt : ∀ id ∈ ids (r.held ++ new), id < q.nextEntry) : Entered q := by
  obtain ⟨told, -, hperm⟩ := h.accounts
  have hids : (ids told ++ ids q.held).Perm (ids (r.held ++ new)) := by
    rw [ids, ids, ← List.filterMap_append]
    exact hperm.filterMap _
  have hall := hids.nodup_iff.2 hnew
  refine ⟨(List.nodup_append.1 hall).2.1, fun id hid => hlt id ?_⟩
  exact hids.subset (List.mem_append_right _ hid)

theorem custody_execute (hr : Sound why r) (now : Nat) (fault : Option String) (request : Request)
    (timeout : Option Nat) (tag : κ) :
    Custody why { r with nextEntry := r.nextEntry + 1 } [(some r.nextEntry, tag)]
      (r.execute now fault request timeout tag).1
      (r.execute now fault request timeout tag).2.1 := by
  have hnumbered : Sound why { r with nextEntry := r.nextEntry + 1 } :=
    { hr with kept := { hr.kept with } }
  exact custody_submit hnumbered
    (e := ⟨r.nextEntry, .ready request, timeout.map (now + ·), tag⟩) rfl now fault

theorem custody_step (hr : Sound why r) (hentered : Entered r) (e : Event κ)
    (hwhy : ∀ reason, e = .signal (.closed reason) → why reason) :
    Custody why r (r.gives e) (r.step e).1 (r.step e).2 := by
  cases e with
  | execute now fault request timeout tag =>
    have hnumbered : Custody why r [] { r with nextEntry := r.nextEntry + 1 } .silent :=
      .of_eq hr rfl rfl rfl (Nat.le_succ _)
    have hall := hnumbered.andThen (custody_execute hr now fault request timeout tag)
    rwa [Report.silent_andThen] at hall
  | plain now fault request timeout tag =>
    exact custody_submitPlain hr now fault request timeout tag
  | signal s => exact custody_signal hr s fun reason hs => hwhy reason (hs ▸ rfl)
  | clock now => exact custody_tick hr hentered.parked now
  | expired id => exact custody_expire hr hentered.parked id
  | replay now fault refreshed => exact custody_replay hr now fault refreshed
  | resubmit now fault => exact custody_resubmit hr now fault
  | refreshed now fault result => exact custody_replayAfter hr now fault result

theorem ids_append (l m : List (Label κ)) : ids (l ++ m) = ids l ++ ids m := List.filterMap_append

theorem ids_gives (hr : Sound why r) (e : Event κ) :
    ids (r.gives e) = [] ∨
      (ids (r.gives e) = [r.nextEntry] ∧ r.nextEntry < (r.step e).1.nextEntry) := by
  cases e with
  | execute now fault request timeout tag =>
    exact .inr ⟨rfl, (custody_execute hr now fault request timeout tag).nextEntry⟩
  | _ => exact .inl rfl

theorem entered_step (hr : Sound why r) (hentered : Entered r) (e : Event κ)
    (hwhy : ∀ reason, e = .signal (.closed reason) → why reason) : Entered (r.step e).1 := by
  have hstep := custody_step hr hentered e hwhy
  have hlt (id : Nat) (hid : id ∈ ids r.held) : id < (r.step e).1.nextEntry :=
    Nat.lt_of_lt_of_le (hentered.lt_nextEntry id hid) hstep.nextEntry
  cases ids_gives hr e with
  | inl hnone =>
    refine hstep.entered ?_ ?_
    · rw [ids_append, hnone, List.append_nil]
      exact hentered.distinct
    · rw [ids_append, hnone, List.append_nil]
      exact hlt
  | inr hone =>
    obtain ⟨hone, hnext⟩ := hone
    refine hstep.entered ?_ ?_
    · have hfresh : r.nextEntry ∉ ids r.held :=
        fun hmem => Nat.lt_irrefl _ (hentered.lt_nextEntry _ hmem)
      rw [ids_append, hone]
      exact List.nodup_append_comm.2 (List.nodup_cons.2 ⟨hfresh, hentered.distinct⟩)
    · intro id hid
      rw [ids_append, hone, List.mem_append, List.mem_singleton] at hid
      cases hid with
      | inl hid => exact hlt id hid
      | inr hid => exact hid ▸ hnext

theorem custody_run (hr : Sound why r) (hentered : Entered r) (es : List (Event κ))
    (hwhy : ∀ reason, .signal (.closed reason) ∈ es → why reason) :
    Custody why r (r.given es) (r.run es).1 (r.run es).2 ∧ Entered (r.run es).1 := by
  induction es generalizing r with
  | nil => exact ⟨.refl hr, hentered⟩
  | cons e es ih =>
    have hfirst : ∀ reason, e = .signal (.closed reason) → why reason :=
      fun reason he => hwhy reason (he ▸ List.mem_cons_self)
    have hstep := custody_step hr hentered e hfirst
    have hrest := ih hstep.sound (entered_step hr hentered e hfirst)
      fun reason hmem => hwhy reason (List.mem_cons_of_mem e hmem)
    exact ⟨hstep.andThen hrest.1, hrest.2⟩

theorem sound_create (settings : PipelineSettings) (catalog : Option Catalog.Cache)
    (refreshes : Bool) : Sound why (create settings catalog refreshes : Retry κ) where
  numbered := Pipeline.numbered_create settings
  sent := nofun
  kept := ⟨nofun, nofun⟩
  closed := by simp [create, Pipeline.create, Pipeline.state, Lifecycle.Cell.initial]

theorem entered_create (settings : PipelineSettings) (catalog : Option Catalog.Cache)
    (refreshes : Bool) : Entered (create settings catalog refreshes : Retry κ) :=
  ⟨.nil, nofun⟩

def readyAfter (r : Retry κ) : Except ClientError Catalog.Snapshot → List (Entry κ)
  | .ok _ => r.preflightDone.parked.filter isReady
  | .error _ => []

def handedOn (r : Retry κ) : Event κ → List (Entry κ)
  | .execute now _ request timeout tag =>
    [⟨r.nextEntry, .ready request, timeout.map (now + ·), tag⟩]
  | .replay _ _ refreshed =>
    if r.needsRefresh then r.readyAfter refreshed else r.parked.filter isReady
  | .resubmit _ _ => r.parked.filter isReady
  | .refreshed _ _ result => r.readyAfter result
  | _ => []

theorem send_of_handedOn (e : Event κ) {x : Entry κ} (hx : x ∈ r.handedOn e) :
    x.staged.send.2 = some x.staged.request := by
  have hfilter (es : List (Entry κ)) (hx : x ∈ es.filter isReady) :
      x.staged.send.2 = some x.staged.request := by
    rw [send_of_ready (isReady_iff.1 (List.mem_filter.1 hx).2)]
  have hafter (result : Except ClientError Catalog.Snapshot)
      (hx : x ∈ r.readyAfter result) : x.staged.send.2 = some x.staged.request := by
    cases result with
    | ok s => exact hfilter _ hx
    | error e => cases hx
  cases e with
  | execute now fault request timeout tag =>
    rw [List.mem_singleton.1 hx]
    rfl
  | replay now fault refreshed =>
    rw [handedOn] at hx
    split at hx
    · exact hafter refreshed hx
    · exact hfilter _ hx
  | resubmit now fault => exact hfilter _ hx
  | refreshed now fault result => exact hafter result hx
  | _ => cases hx

variable [DecidableEq κ]

/-- How often an operation is in flight, how often it is parked, and all that was told of it. -/
def whereabouts (r : Retry κ) (report : Report κ) (id : Nat) (tag : κ) : Nat × Nat × List Outcome :=
  (((owners r.pipeline).map Owner.label).count (some id, tag),
    (r.parked.map Entry.label).count (some id, tag), report.outcomesOf tag)

/-- How things stand after the events of `es`, with which the operations of `new` came in. -/
structure NeverLost (es : List (Event κ)) (new : List (Label κ)) (r : Retry κ) (report : Report κ) :
    Prop where
  accounts : Accounts [] new report.tags r.held
  onePlace : (new.map Prod.snd).Nodup → ∀ id tag, (some id, tag) ∈ new →
    whereabouts r report id tag = (1, 0, []) ∨ whereabouts r report id tag = (0, 1, []) ∨
      ∃ outcome, whereabouts r report id tag = (0, 0, [outcome])
  sent : ∀ e, .entry e ∈ owners r.pipeline → e.staged.stage = .sent
  rearmed : ∀ e ∈ r.parked, e.staged.stage = .ready ∨ e.staged.stage = .waiting
  ready : ∀ e, ∀ x ∈ r.handedOn e, x.staged.send.2 = some x.staged.request
  empty : r.pipeline.state = .closed → ∀ later, (r.run later).1.parked = []
  reason : ∀ reason, r.closed = some reason →
    .signal (.closed reason) ∈ es ∧ r.pipeline.cell.terminal = some reason
  outcomes : ∀ x ∈ report.outcomes, Final r.closed x.2 ∨ (none, x.1) ∈ new

theorem onePlace_of_accounts (h : Accounts [] new report.tags r.held)
    (hnew : (new.map Prod.snd).Nodup) {id : Nat} {tag : κ} (hmem : (some id, tag) ∈ new) :
    whereabouts r report id tag = (1, 0, []) ∨ whereabouts r report id tag = (0, 1, []) ∨
      ∃ outcome, whereabouts r report id tag = (0, 0, [outcome]) := by
  obtain ⟨told, htags, hperm⟩ := h
  rw [List.nil_append] at hperm
  have hcount := hperm.count_eq (some id, tag)
  rw [List.count_eq_one_of_mem hnew.of_map hmem, List.count_append, held,
    List.count_append] at hcount
  -- Another operation with this tag would be this one.
  have htold : told.count (some id, tag) = (report.outcomesOf tag).length := by
    rw [report.length_outcomesOf, ← htags, List.count, List.count, List.countP_map]
    refine List.countP_congr fun x hx => ?_
    rw [beq_iff_eq, Function.comp_apply, beq_iff_eq]
    refine ⟨fun hx => hx ▸ rfl, fun htag => ?_⟩
    exact List.inj_on_of_nodup_map hnew (hperm.subset (List.mem_append_left _ hx)) hmem htag
  rw [htold] at hcount
  unfold whereabouts
  cases houtcomes : report.outcomesOf tag with
  | nil =>
    rw [houtcomes, List.length_nil, Nat.zero_add] at hcount
    rcases Nat.add_eq_one_iff.1 hcount with ⟨hflying, hparked⟩ | ⟨hflying, hparked⟩
    · exact .inr (.inl (by rw [hflying, hparked]))
    · exact .inl (by rw [hflying, hparked])
  | cons outcome rest =>
    rw [houtcomes, List.length_cons] at hcount
    have hrest : rest = [] := List.eq_nil_of_length_eq_zero (by omega)
    refine .inr (.inr ⟨outcome, ?_⟩)
    rw [hrest]
    congr 2 <;> omega

/-- In every run each operation that is to be tried until it ends is in flight once, or parked once,
or its submitter was told, once. Nothing is handed on that cannot be sent, nothing is parked once
all is closed, and what is told is a result, an error that does not pass, that the time is over, or
the reason for which all was closed. -/
theorem never_lost (settings : PipelineSettings) (catalog : Option Catalog.Cache) (refreshes : Bool)
    (es : List (Event κ)) :
    let start : Retry κ := create settings catalog refreshes
    NeverLost es (start.given es) (start.run es).1 (start.run es).2 := by
  intro start
  have hcreated : Sound (fun reason => Event.signal (.closed reason) ∈ es) start :=
    sound_create settings catalog refreshes
  obtain ⟨hrun, hentered⟩ :=
    custody_run hcreated (entered_create settings catalog refreshes) es fun _ => id
  have hsound := hrun.sound
  have haccounts : Accounts [] (start.given es) (start.run es).2.tags (start.run es).1.held :=
    hrun.accounts
  exact
    { accounts := haccounts
      onePlace := fun hnew id tag => onePlace_of_accounts haccounts hnew
      sent := hsound.sent
      rearmed := by
        intro e he
        have hne := hsound.kept.rearmed e he
        cases hstage : e.staged.stage with
        | sent => exact absurd hstage hne
        | ready => exact .inl rfl
        | waiting => exact .inr rfl
      ready := fun e x => send_of_handedOn e
      empty := by
        intro hclosed later
        have hstart : Sound (fun _ => True) start := sound_create settings catalog refreshes
        have hany :=
          custody_run hstart (entered_create settings catalog refreshes) es fun _ _ => trivial
        have hlater := (custody_run hany.1.sound hany.2 later fun _ _ => trivial).1
        obtain ⟨reason, hreason⟩ := Option.isSome_iff_exists.1 (hsound.closed.2 hclosed)
        have hsame := hlater.lasts (hsound.closed.2 hclosed)
        exact (hlater.sound.kept.closed reason (hsame.trans hreason)).2.2
      reason := fun reason hreason =>
        ⟨(hsound.kept.closed reason hreason).1, (hsound.kept.closed reason hreason).2.1⟩
      outcomes := hrun.outcomes }

end TupleClient.Retry
