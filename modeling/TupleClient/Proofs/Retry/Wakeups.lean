import TupleClient.Proofs.Retry.Hands

/-!
Operations that wait for the connection to come back. However the loss of a connection, its return
and the ends of its operations fall together, none of them waits beside a connection that lives
without a replay that is called for.
-/
namespace TupleClient.Retry

variable {κ : Type} {i : Incident κ} {x y : Stand κ} {log notes : List (Note κ)} {n : Nat}
  {report : Report κ} {r : Retry κ} {p q : Pipeline (Owner κ)} {id : Nat} {err : ClientError}
  {refreshes : Bool}

theorem aliveAfter_of_shows {rep : Report (Owner κ)} (h : Pipeline.Shows p rep q) :
    aliveAfter p.state.isAlive rep.happenings = q.state.isAlive := by
  have hstates : (⟨rep.happenings, [], false⟩ : Report (Owner κ)).states = rep.states := rfl
  rw [aliveAfter, hstates, h]
  cases rep.states.getLast? <;> rfl

theorem shows_meets (p : Pipeline (Owner κ)) (i : Incident κ) :
    Pipeline.Shows p (meets p i).2 (meets p i).1 := by
  unfold meets
  split
  · rename_i s
    exact (Pipeline.parts_step p (.signal s)).shows
  · exact Pipeline.shows_of_cell_eq rfl rfl
  · unfold Pipeline.lose
    split
    · rename_i cell hfail
      obtain ⟨-, rfl⟩ := Pipeline.enter_of_fail hfail
      rfl
    · exact Pipeline.shows_of_cell_eq rfl rfl
  · rename_i id outcome
    have honly := Pipeline.onlyEnds_complete p id outcome
    exact Pipeline.shows_of_cell_eq honly.cell honly.states
  · exact Pipeline.shows_of_cell_eq rfl (Pipeline.states_teardown p _)

theorem lastError_append_iff {n : Note κ}
    (hn : ∀ e outcome, n = .ended (.entry e) outcome → e.id ≠ id) :
    LastError (log ++ [n]) id err ↔ LastError log id err := by
  constructor
  · rintro ⟨before, e, after, hlog, hid, hafter⟩
    rcases append_singleton_eq_iff.1 hlog with ⟨-, hlast, -⟩ | ⟨rest, rfl, hrest⟩
    · exact absurd hid (hn e _ hlast)
    · refine ⟨before, e, rest, hrest, hid, fun f outcome hf => ?_⟩
      exact hafter f outcome (List.mem_append_left _ hf)
  · exact fun h => h.append hn

theorem lastError_append_self {e : Entry κ} {outcome : Outcome} :
    LastError (log ++ [.ended (.entry e) outcome]) e.id err ↔ outcome = .error err := by
  constructor
  · rintro ⟨before, f, after, hlog, hid, hafter⟩
    rcases append_singleton_eq_iff.1 hlog with ⟨-, hlast, -⟩ | ⟨rest, rfl, -⟩
    · simp only [Note.ended.injEq] at hlast
      exact hlast.2
    · exact absurd rfl (hafter e outcome (by simp))
  · rintro rfl
    exact ⟨log, e, [], rfl, rfl, by simp⟩

/-- Whatever is parked was parked for the error of its last try; after a connection error it is
ready to be sent. Where the connection lives and no replay is called for or has begun, that error
was none of the connection. -/
structure Awake (refreshes : Bool) (log : List (Note κ)) (x : Stand κ) : Prop where
  refreshes : x.retry.refreshes = refreshes
  live : aliveAfter x.alive x.back = x.retry.pipeline.state.isAlive
  reason : ∀ e ∈ x.retry.parked, ∃ err, LastError log e.id err ∧ err.isTransient = true
  ready : ∀ e ∈ x.retry.parked, ∀ err, LastError log e.id err → err.isConnection = true →
    e.staged.stage = .ready
  woken : x.alive = true → x.retry.replays = 0 → x.replaying = false →
    ∀ e ∈ x.retry.parked, ∀ err, LastError log e.id err → err.isConnection = false

theorem Awake.append (h : Awake refreshes log x)
    (hn : ∀ n ∈ notes, ∀ e outcome, n ≠ .ended (.entry e) outcome) :
    Awake refreshes (log ++ notes) x := by
  have hsame (id : Nat) (err : ClientError) :
      LastError (log ++ notes) id err ↔ LastError log id err := by
    clear h
    induction notes generalizing log with
    | nil => simp
    | cons n notes ih =>
      obtain ⟨hfirst, hrest⟩ := List.forall_mem_cons.1 hn
      rw [List.append_cons, ih hrest, lastError_append_iff]
      exact fun e outcome heq => absurd heq (hfirst e outcome)
  exact ⟨h.refreshes, h.live, by simpa [hsame] using h.reason, by simpa [hsame] using h.ready,
    by simpa [hsame] using h.woken⟩

theorem Awake.of_parked (h : Awake refreshes log x)
    (hrefreshes : y.retry.refreshes = x.retry.refreshes)
    (hlive : aliveAfter y.alive y.back = y.retry.pipeline.state.isAlive)
    (hparked : y.retry.parked ⊆ x.retry.parked)
    (hwoken : y.alive = true → y.retry.replays = 0 → y.replaying = false → x.alive = true ∧
      x.retry.replays = 0 ∧ x.replaying = false) : Awake refreshes log y where
  refreshes := hrefreshes.trans h.refreshes
  live := hlive
  reason e he := h.reason e (hparked he)
  ready e he := h.ready e (hparked he)
  woken halive hreplays hreplaying e he := by
    obtain ⟨halive, hreplays, hreplaying⟩ := hwoken halive hreplays hreplaying
    exact h.woken halive hreplays hreplaying e (hparked he)

theorem Awake.of_subset {back : List (Happening (Owner κ))} {out before : List (Entry κ)}
    {alive replaying : Bool} (h : Awake refreshes log ⟨r, alive, back, before, replaying⟩)
    {after : Retry κ} (hrefreshes : after.refreshes = r.refreshes)
    (hpipeline : after.pipeline = r.pipeline) (hreplays : after.replays = r.replays)
    (hparked : after.parked ⊆ r.parked) :
    Awake refreshes log ⟨after, alive, back, out, replaying⟩ :=
  h.of_parked hrefreshes (hpipeline ▸ h.live) hparked fun halive hnone hbegun =>
    ⟨halive, hreplays ▸ hnone, hbegun⟩

theorem Awake.absorb {alive replaying : Bool} {before out : List (Entry κ)}
    {rep : Report (Owner κ)} (h : Awake refreshes log ⟨r, alive, [], before, replaying⟩)
    (hshows : Pipeline.Shows r.pipeline rep q) :
    Awake refreshes log
      ⟨{ r with pipeline := q }, r.pipeline.state.isAlive, rep.happenings, out, replaying⟩ := by
  have hlive : alive = r.pipeline.state.isAlive := h.live
  refine h.of_parked rfl (aliveAfter_of_shows hshows) (List.Subset.refl _) ?_
  rintro halive hreplays hreplaying
  exact ⟨hlive.trans halive, hreplays, hreplaying⟩

theorem awake_settled {alive replaying : Bool} {back : List (Happening (Owner κ))}
    {out : List (Entry κ)} {e : Entry κ} {outcome : Outcome}
    (hx : Tidy ⟨r, alive, .ended (.entry e) outcome :: back, out, replaying⟩)
    (h : Awake refreshes log ⟨r, alive, .ended (.entry e) outcome :: back, out, replaying⟩) :
    Awake refreshes (log ++ [.ended (.entry e) outcome])
      ⟨(r.settle alive e outcome).1, alive, back, out, replaying⟩ := by
  have hother (f : Entry κ) (hf : f ∈ r.parked) (err : ClientError) :
      LastError (log ++ [.ended (.entry e) outcome]) f.id err ↔ LastError log f.id err := by
    refine lastError_append_iff fun g o hg => ?_
    simp only [Note.ended.injEq, Owner.entry.injEq] at hg
    exact hg.1 ▸ hx.id_ne (o := e.order) (by simp) hf
  obtain hsame | ⟨error, rfl, htransient, hclosed, hparked⟩ :=
    settle_cases (r := r) alive e outcome
  · rw [hsame]
    refine ⟨h.refreshes, h.live, fun f hf => ?_, fun f hf err => ?_,
      fun halive hreplays hreplaying f hf err => ?_⟩
    · simpa [hother f hf] using h.reason f hf
    · simpa [hother f hf] using h.ready f hf err
    · simpa [hother f hf] using h.woken halive hreplays hreplaying f hf err
  · rw [hparked]
    have hsent : e.staged.stage = .sent := hx.sent e (by simp)
    refine ⟨h.refreshes, h.live, fun f hf => ?_, fun f hf err => ?_,
      fun halive hreplays hreplaying f hf err => ?_⟩
    · rcases List.mem_append.1 hf with hf | hf
      · simpa [hother f hf] using h.reason f hf
      · obtain rfl := List.mem_singleton.1 hf
        exact ⟨error, lastError_append_self.2 rfl, htransient⟩
    · rcases List.mem_append.1 hf with hf | hf
      · simpa [hother f hf] using h.ready f hf err
      · obtain rfl := List.mem_singleton.1 hf
        intro hlast hconnection
        obtain rfl : error = err := by simpa using lastError_append_self.1 hlast
        have hfresh : r.isStale error = false := by
          cases error <;> simp [ClientError.isConnection] at hconnection
          simp [isStale, ClientError.isWrongSchemaVersion]
        simp [rearmed, hfresh, rearm_of_sent hsent]
    · obtain rfl : alive = true := halive
      rcases List.mem_append.1 hf with hf | hf
      · rw [hother f hf]
        refine h.woken rfl ?_ hreplaying f hf err
        simp only [Bool.true_and] at hreplays
        split at hreplays
        · simp at hreplays
        · exact hreplays
      · obtain rfl := List.mem_singleton.1 hf
        intro hlast
        obtain rfl : error = err := by simpa using lastError_append_self.1 hlast
        simp only [Bool.true_and] at hreplays
        split at hreplays
        · simp at hreplays
        · rename_i hnone
          simp only [Bool.or_eq_true, not_or, Bool.not_eq_true] at hnone
          exact hnone.2

/-- A replay whose catalog cannot be read is none of these incidents, or the catalog is not read. -/
def Reads (refreshes : Bool) (i : Incident κ) : Prop :=
  refreshes = false ∨ ∀ now fault e, i ≠ .event (.replay now fault (.error e))

/-- What is not waiting for the catalog is ready before it is read as after. -/
theorem Awake.read {alive replaying : Bool}
    (h : Awake refreshes log ⟨r, alive, [], [], replaying⟩) (s : Catalog.Snapshot) :
    Awake refreshes log ⟨(r.install s).preflightDone, alive, [], [], replaying⟩ := by
  refine ⟨h.refreshes, h.live, fun e he => ?_, fun e he err hlast hconnection => ?_,
    fun halive hreplays hbegun e he => ?_⟩
  · obtain ⟨f, hf, rfl⟩ := List.mem_map.1 he
    exact h.reason f hf
  · obtain ⟨f, hf, rfl⟩ := List.mem_map.1 he
    exact preflightDone_ready (.inr (h.ready f hf err hlast hconnection))
  · obtain ⟨f, hf, rfl⟩ := List.mem_map.1 he
    exact h.woken halive hreplays hbegun f hf

theorem not_replaying_of_unread {replaying : Bool} {event : Event κ} {e : ClientError}
    (hread : Reads r.refreshes (.event event)) (he : event.missed? = some e)
    (hwaiting : ∀ f ∈ r.parked, f.staged.stage = .waiting → r.refreshes = true)
    (hreplaying : replaying = true → event.IsReplay ∧ r.needsRefresh = true) :
    replaying = false := by
  by_contra hbegun
  obtain ⟨hreplay, hneeds⟩ := hreplaying (by simpa using hbegun)
  obtain ⟨f, hf, hstage⟩ := List.any_eq_true.1 hneeds
  have hrefreshes := hwaiting f hf (beq_iff_eq.1 hstage)
  rcases hread with hread | hread
  · exact absurd hrefreshes (by simp [hread])
  · cases event with
    | replay now fault result =>
      cases result with
      | ok s => cases he
      | error error => exact hread now fault error rfl
    | _ => exact hreplay

/-- A replay takes out all that is ready, and so all that a connection error had parked. -/
theorem Awake.taken {alive replaying : Bool} {out : List (Entry κ)}
    (h : Awake refreshes log ⟨r, alive, [], [], replaying⟩) :
    Awake refreshes log
      ⟨{ r with parked := r.parked.filter (!isReady ·) }, alive, [], out, false⟩ := by
  refine ⟨h.refreshes, h.live, fun e he => ?_, fun e he => ?_, fun _ _ _ e he err hlast => ?_⟩
  · exact h.reason e (List.mem_filter.1 he).1
  · exact h.ready e (List.mem_filter.1 he).1
  · obtain ⟨hparked, hunready⟩ := List.mem_filter.1 he
    by_contra hconnection
    have hready := h.ready e hparked err hlast (by simpa using hconnection)
    simp [isReady, hready] at hunready

theorem Part.awake (h : Part i n x notes report y) (hread : Reads refreshes i) (hx : Tidy x)
    (hawake : Awake refreshes log x) : Awake refreshes (log ++ notes) y := by
  cases h with
  | met =>
    refine (hawake.absorb (shows_meets _ i)).append ?_
    unfold Incident.heading
    split <;> simp
  | @plain r alive now fault request timeout tag s hi hs =>
    refine (hawake.absorb ?_).append (by simp)
    exact (Pipeline.parts_submit r.pipeline now fault s).shows
  | @sent r alive replaying out now fault s e hnow he hs =>
    refine (hawake.absorb ?_).append (by simp)
    exact (Pipeline.parts_submit r.pipeline now fault s).shows
  | overdue =>
    rw [List.append_nil]
    exact hawake.of_subset rfl rfl rfl (List.Subset.refl _)
  | @entered r alive replaying back out s =>
    rw [List.append_nil]
    have hlive : aliveAfter s.isAlive back = r.pipeline.state.isAlive := by
      have hlive : aliveAfter alive (.entered s :: back) = r.pipeline.state.isAlive := hawake.live
      rwa [aliveAfter_entered] at hlive
    cases s with
    | alive =>
      exact hawake.of_parked rfl hlive (List.Subset.refl _) (by simp [Retry.entered, callReplay])
    | closed =>
      exact hawake.of_parked rfl hlive (List.nil_subset _) (by simp [Lifecycle.State.isAlive])
    | _ => exact hawake.of_parked rfl hlive (List.Subset.refl _) (by simp [Lifecycle.State.isAlive])
  | told =>
    refine Awake.append ?_ (by simp)
    exact hawake.of_parked rfl hawake.live (List.Subset.refl _) fun h₁ h₂ h₃ => ⟨h₁, h₂, h₃⟩
  | settled => exact awake_settled hx hawake
  | accepted =>
    rw [List.append_nil]
    exact hawake.of_subset rfl rfl rfl (List.Subset.refl _)
  | begun =>
    rw [List.append_nil]
    exact hawake.of_parked rfl hawake.live (List.Subset.refl _) (by simp)
  | @read r alive replaying s => exact (hawake.read s).append (by simp)
  | @unread r alive replaying event e hi he hreplaying =>
    rw [List.append_nil]
    have hrefreshes : r.refreshes = refreshes := hawake.refreshes
    obtain rfl : replaying = false :=
      not_replaying_of_unread (hrefreshes ▸ hi ▸ hread) he hx.waiting hreplaying
    by_cases htransient : e.isTransient = true
    · simp only [htransient, if_true]
      exact hawake
    · simp only [htransient]
      exact hawake.of_subset rfl rfl rfl List.filter_sublist.subset
  | taken =>
    rw [List.append_nil]
    exact hawake.taken
  | @unscheduled r alive replaying out e =>
    obtain ⟨deadlines, hunscheduled⟩ := unschedule_eq r e
    rw [hunscheduled, List.append_nil]
    exact hawake.of_subset rfl rfl rfl (List.Subset.refl _)
  | @expired r alive id hi =>
    rw [expire_eq, List.append_nil]
    exact hawake.of_subset rfl rfl rfl List.filter_sublist.subset
  | @ticked r alive now hi =>
    rw [tick, expireAll_eq, List.append_nil]
    exact hawake.of_subset rfl rfl rfl List.filter_sublist.subset

theorem Parts.awake (h : Parts i n x notes report y) (hread : Reads refreshes i) (hx : Tidy x)
    (hawake : Awake refreshes log x) : Awake refreshes (log ++ notes) y := by
  induction h generalizing log with
  | none x => simpa using hawake
  | more first _ ih =>
    rw [← List.append_assoc]
    exact ih (first.tidy hx) (first.awake hread hx hawake)

theorem awake_undergo {alive : Bool} (hx : Tidy ⟨r, alive, [], [], false⟩)
    (hawake : Awake refreshes log ⟨r, alive, [], [], false⟩) (incidents : List (Incident κ))
    (hread : ∀ i ∈ incidents, Reads refreshes i) :
    ∃ after, Awake refreshes (log ++ r.record incidents)
      ⟨r.undergo incidents, after, [], [], false⟩ := by
  induction incidents generalizing r log alive with
  | nil => exact ⟨alive, by simpa [record, undergo] using hawake⟩
  | cons i incidents ih =>
    obtain ⟨hfirst, hrest⟩ := List.forall_mem_cons.1 hread
    obtain ⟨mid, hparts⟩ := parts_happen r alive i
    rw [record, undergo, ← List.append_assoc]
    exact ih (hparts.tidy hx) (hparts.awake hfirst hx hawake) hrest

/-- Whatever happens in whatever order: while the connection lives and no replay is called for, no
operation waits that a connection error had parked. All that waits was refused by the server. For
that a replay has to find the catalog readable, unless nothing waits for it. -/
theorem parked_beside_alive (settings : PipelineSettings) (catalog : Option Catalog.Cache)
    (refreshes : Bool) (incidents : List (Incident κ))
    (hread : ∀ i ∈ incidents, Reads refreshes i) :
    let start : Retry κ := create settings catalog refreshes
    let last := start.undergo incidents
    last.pipeline.state = .alive → last.replays = 0 →
      ∀ e ∈ last.parked, ∃ err, LastError (start.record incidents) e.id err ∧
        err.isTransient = true ∧ err.isConnection = false := by
  intro start last halive hreplays e he
  have hstart : Awake refreshes ([] : List (Note κ)) ⟨start, false, [], [], false⟩ :=
    ⟨rfl, rfl, by simp [start, create], by simp [start, create], by simp⟩
  obtain ⟨after, hawake⟩ :=
    awake_undergo (tidy_create settings catalog refreshes false) hstart incidents hread
  have hafter : after = true := by
    have hlive : after = last.pipeline.state.isAlive := hawake.live
    rw [hlive, halive]
    rfl
  obtain ⟨err, hlast, htransient⟩ := hawake.reason e he
  exact ⟨err, hlast, htransient, hawake.woken hafter hreplays rfl e he err hlast⟩

/-- A connection is lost while two operations are in flight, and they come back only after the next
one is up. Both are sent again, and the server refuses the first one. -/
theorem parked_beside_alive_of_refusal :
    let connected (generation : Nat) : List (Incident Nat) :=
      [.event (.signal .seeking), .event (.signal .begun),
        .event (.signal (.attached generation "a:1" [] none)),
        .event (.signal (.started generation .writer)),
        .event (.signal (.started generation .reader)), .event (.replay 0 none (.ok ⟨1, [], []⟩))]
    let refusal : Bytes := [0xce, 0, 0, 0, 8, 0x82, 0x00, 0xcd, 0x80, 0x07, 0x01, 0x03, 0x80]
    let incidents : List (Incident Nat) :=
      .event (.signal .supervised) :: connected 1 ++
        [.event (.execute 0 none .ping none 7), .event (.execute 0 none .ping none 8),
          .lost 1 .endOfInput] ++ connected 2 ++
        [.ended 1 (.error .endOfInput), .ended 2 (.error .endOfInput),
          .event (.replay 0 none (.ok ⟨1, [], []⟩)), .event (.replay 0 none (.ok ⟨1, [], []⟩)),
          .event (.signal (.received refusal))]
    let start : Retry Nat := create ⟨none, 1000, 1024, Settings.half, 1024⟩ (some (.create 3)) true
    let last := start.undergo incidents
    last.pipeline.state = .alive ∧ last.replays = 0 ∧ last.parked.map (·.tag) = [7] ∧
      ∀ e ∈ last.parked, ∃ err, LastError (start.record incidents) e.id err ∧
        err.isTransient = true ∧ err.isConnection = false := by
  intro connected refusal incidents start last
  have hread : ∀ i ∈ incidents, Reads true i := by
    simp [incidents, connected, Reads]
  have halive : last.pipeline.state = .alive := by decide +kernel
  have hreplays : last.replays = 0 := by decide +kernel
  exact ⟨halive, hreplays, by decide +kernel,
    parked_beside_alive ⟨none, 1000, 1024, Settings.half, 1024⟩ (some (.create 3)) true incidents
      hread halive hreplays⟩

end TupleClient.Retry
