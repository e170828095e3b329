import Mathlib.Data.List.Perm.Basic
import TupleClient.Proofs.Pipeline.Closing
import TupleClient.Retry

/-!
What becomes of operations that come back from the pipeline: each one is parked, or its submitter is
told.
-/
namespace TupleClient.Retry

variable {κ : Type} {why : ClientError → Prop}

/-- The number of an entry and its tag; plain operations have no number. -/
abbrev Label (κ : Type) := Option Nat × κ

def Entry.label (e : Entry κ) : Label κ := (some e.id, e.tag)

def Owner.label : Owner κ → Label κ
  | .entry e => e.label
  | .plain tag => (none, tag)

def owners (p : Pipeline (Owner κ)) : List (Owner κ) := p.entries.map Prod.snd

def held (r : Retry κ) : List (Label κ) :=
  (owners r.pipeline).map Owner.label ++ r.parked.map Entry.label

/-- Each operation that was held or is new is still among those left, or its tag is in `tags`, once
for each operation. -/
def Accounts (held new : List (Label κ)) (tags : List κ) (left : List (Label κ)) : Prop :=
  ∃ told : List (Label κ), told.map Prod.snd = tags ∧ (told ++ left).Perm (held ++ new)

/-- How an operation may end; `closed` is the reason for which everything was closed, if it was. -/
def Final (closed : Option ClientError) : Outcome → Prop
  | .ok _ => True
  | .error e => e.isTransient = false ∨ e = .timeout .operation ∨ closed = some e

/-- What is parked can be sent again or waits for the catalog. Once closed nothing is parked, and
the reason is the one that the pipeline was closed for. -/
structure Kept (why : ClientError → Prop) (r : Retry κ) : Prop where
  rearmed : ∀ e ∈ r.parked, e.staged.stage ≠ .sent
  closed : ∀ reason, r.closed = some reason →
    why reason ∧ r.pipeline.cell.terminal = some reason ∧ r.parked = []

/-- From `r` to `q` the operations of `os` have come back from the pipeline and the states of `ss`
were entered. -/
structure Followed (why : ClientError → Prop) (r : Retry κ) (os : List (Owner κ))
    (ss : List Lifecycle.State) (q : Retry κ) (report : Report κ) : Prop where
  pipeline : q.pipeline = r.pipeline
  nextEntry : q.nextEntry = r.nextEntry
  accounts : Accounts (r.parked.map Entry.label) (os.map Owner.label) report.tags
    (q.parked.map Entry.label)
  outcomes : ∀ x ∈ report.outcomes, Final q.closed x.2 ∨ .plain x.1 ∈ os
  lasts : r.closed.isSome → q.closed = r.closed
  closed : q.closed.isSome ↔ r.closed.isSome ∨ .closed ∈ ss
  kept : Kept why q

theorem Accounts.refl (held : List (Label κ)) : Accounts held [] [] held :=
  ⟨[], rfl, by rw [List.append_nil, List.nil_append]⟩

theorem Accounts.trans {held new mid more left : List (Label κ)} {tags tags' : List κ}
    (h : Accounts held new tags mid) (g : Accounts mid more tags' left) :
    Accounts held (new ++ more) (tags ++ tags') left := by
  obtain ⟨told, rfl, hmid⟩ := h
  obtain ⟨told', rfl, hleft⟩ := g
  refine ⟨told ++ told', List.map_append, ?_⟩
  calc (told ++ told' ++ left).Perm (told ++ (mid ++ more)) := by
        rw [List.append_assoc]
        exact hleft.append_left told
    _ = told ++ mid ++ more := (List.append_assoc ..).symm
    List.Perm _ (held ++ new ++ more) := hmid.append_right more
    _ = held ++ (new ++ more) := List.append_assoc ..

theorem Final.lasts {before after : Option ClientError} {outcome : Outcome}
    (h : Final before outcome) (hafter : before.isSome → after = before) : Final after outcome := by
  cases outcome with
  | ok response => exact h
  | error e =>
    rcases h with htransient | htimeout | hclosed
    · exact .inl htransient
    · exact .inr (.inl htimeout)
    · have hsome : before.isSome := by rw [hclosed]; rfl
      exact .inr (.inr ((hafter hsome).trans hclosed))

variable {r q : Retry κ} {report : Report κ} {os : List (Owner κ)} {ss : List Lifecycle.State}

theorem Followed.andThen {last : Retry κ} {more : Report κ} {os' : List (Owner κ)}
    {ss' : List Lifecycle.State} (h : Followed why r os ss q report)
    (g : Followed why q os' ss' last more) :
    Followed why r (os ++ os') (ss ++ ss') last (report.andThen more) where
  pipeline := g.pipeline.trans h.pipeline
  nextEntry := g.nextEntry.trans h.nextEntry
  accounts := by
    rw [List.map_append, Report.tags_andThen]
    exact h.accounts.trans g.accounts
  outcomes := by
    intro x hx
    rw [Report.outcomes_andThen, List.mem_append] at hx
    rw [List.mem_append]
    cases hx with
    | inl hx => exact (h.outcomes x hx).imp (·.lasts g.lasts) .inl
    | inr hx => exact (g.outcomes x hx).imp_right .inr
  lasts := by
    intro hr
    have hq := h.lasts hr
    exact (g.lasts (hq ▸ hr)).trans hq
  closed := by rw [g.closed, h.closed, List.mem_append, or_assoc]
  kept := g.kept

theorem Followed.of_eq (hkept : Kept why r) (hpipeline : q.pipeline = r.pipeline)
    (hnext : q.nextEntry = r.nextEntry) (hparked : q.parked = r.parked)
    (hclosed : q.closed = r.closed) (hss : .closed ∉ ss) (hsilent : report.outcomes = []) :
    Followed why r [] ss q report where
  pipeline := hpipeline
  nextEntry := hnext
  accounts := by
    rw [hparked, Report.tags, hsilent]
    exact .refl _
  outcomes := by simp [hsilent]
  lasts _ := hclosed
  closed := by simp [hclosed, hss]
  kept := ⟨hparked ▸ hkept.rearmed, by rw [hpipeline, hparked, hclosed]; exact hkept.closed⟩

theorem followed_failAll (hreason : ∃ reason, why reason ∧ r.pipeline.cell.terminal = some reason)
    (hkept : Kept why r) : Followed why r [] [.closed] r.failAll.1 r.failAll.2 := by
  obtain ⟨reason, hwhy, hterminal⟩ := hreason
  have hclosing : r.closingReason = reason := by rw [closingReason, hterminal, Option.getD_some]
  have houtcomes : r.failAll.2.outcomes = r.parked.map fun e => (e.tag, .error reason) := by
    simp [failAll, Report.outcomes, hclosing]
  exact
    { pipeline := rfl
      nextEntry := rfl
      accounts := by
        refine ⟨r.parked.map Entry.label, ?_, ?_⟩
        · simp [Report.tags, houtcomes, Entry.label, Function.comp_def]
        · rw [failAll, List.map_nil, List.map_nil]
      outcomes := by
        intro x hx
        rw [houtcomes] at hx
        obtain ⟨e, -, rfl⟩ := List.mem_map.1 hx
        exact .inl (.inr (.inr (congrArg some hclosing)))
      lasts := by
        intro hr
        obtain ⟨before, hbefore⟩ := Option.isSome_iff_exists.1 hr
        have hsame := (hkept.closed before hbefore).2.1
        rw [hbefore, ← hsame, hterminal, ← hclosing]
        rfl
      closed := by simp [failAll]
      kept := by
        refine ⟨fun e he => absurd he List.not_mem_nil, fun closed h => ?_⟩
        obtain rfl : r.closingReason = closed := Option.some.inj h
        exact ⟨hclosing ▸ hwhy, hclosing ▸ hterminal, rfl⟩ }

theorem followed_entered {s : Lifecycle.State} (hkept : Kept why r)
    (hreason : s = .closed → ∃ reason, why reason ∧ r.pipeline.cell.terminal = some reason) :
    Followed why r [] [s] (r.entered s).1 (r.entered s).2 := by
  cases s with
  | closed =>
    have hfail := followed_failAll (hreason rfl) hkept
    exact { hfail with }
  | _ => exact .of_eq hkept rfl rfl rfl rfl (by simp) rfl

theorem followed_ended (o : Owner κ) {outcome : Outcome} (hkept : Kept why r)
    (hfinal : Final r.closed outcome ∨ .plain o.label.2 = o) :
    Followed why r [o] [] r (.ended o.label.2 outcome) where
  pipeline := rfl
  nextEntry := rfl
  accounts := ⟨[o.label], rfl, List.perm_append_comm⟩
  outcomes := by
    intro x hx
    obtain rfl : x = (o.label.2, outcome) := List.mem_singleton.1 hx
    rw [List.mem_singleton]
    exact hfinal
  lasts _ := rfl
  closed := by simp
  kept := hkept

theorem rearm_ne_sent (s : Staged Request) (preflight : Bool) :
    (s.rearm preflight).1.stage ≠ .sent := by
  unfold Staged.rearm Staged.advance
  split
  · cases preflight <;> exact nofun
  · assumption

theorem schedule_eq (r : Retry κ) (e : Entry κ) :
    ∃ deadlines, r.schedule e = { r with deadlines := deadlines } := by
  unfold schedule
  split
  · exact ⟨_, rfl⟩
  · exact ⟨r.deadlines, rfl⟩

theorem unschedule_eq (r : Retry κ) (e : Entry κ) :
    ∃ deadlines, r.unschedule e = { r with deadlines := deadlines } := by
  unfold unschedule
  split
  · exact ⟨_, rfl⟩
  · exact ⟨r.deadlines, rfl⟩

theorem park_of_closed {reason : ClientError} (h : r.closed = some reason) (alive : Bool)
    (entry : Entry κ) (e : ClientError) :
    r.park alive entry e = (r, .ended entry.tag (.error reason)) := by
  simp only [park, h]

theorem park_of_open (h : r.closed = none) (alive : Bool) (entry : Entry κ) (e : ClientError) :
    ∃ deadlines replays, r.park alive entry e =
      ({ r with
          parked := r.parked ++ [{ entry with staged := (entry.staged.rearm (r.isStale e)).1 }]
          deadlines := deadlines
          replays := replays }, .silent) := by
  simp only [park, h]
  generalize Entry.mk entry.id (entry.staged.rearm (r.isStale e)).1 entry.deadline entry.tag =
    rearmed
  obtain ⟨deadlines, hschedule⟩ :=
    schedule_eq { r with parked := r.parked ++ [rearmed], closed := none } rearmed
  rw [hschedule]
  split
  · exact ⟨_, _, rfl⟩
  · exact ⟨_, _, rfl⟩

theorem settle_kept (r : Retry κ) (alive : Bool) (e : Entry κ) (outcome : Outcome) :
    (∃ last, r.settle alive e outcome = (r, .ended e.tag last)) ∨
      ∃ parked deadlines replays, r.settle alive e outcome =
        ({ r with parked := parked, deadlines := deadlines, replays := replays }, .silent) := by
  unfold settle
  split
  · exact .inl ⟨_, rfl⟩
  · rename_i error
    split
    · cases hclosed : r.closed with
      | some reason => exact .inl ⟨_, park_of_closed hclosed alive e error⟩
      | none =>
        obtain ⟨deadlines, replays, hpark⟩ := park_of_open hclosed alive e error
        exact .inr ⟨_, deadlines, replays, hclosed ▸ hpark⟩
    · exact .inl ⟨_, rfl⟩

theorem followed_park (alive : Bool) (entry : Entry κ) (e : ClientError) (hkept : Kept why r) :
    Followed why r [.entry entry] [] (r.park alive entry e).1 (r.park alive entry e).2 := by
  cases hclosed : r.closed with
  | some reason =>
    rw [park_of_closed hclosed]
    have hfinal : Final r.closed (.error reason) := .inr (.inr hclosed)
    exact followed_ended (.entry entry) hkept (.inl hfinal)
  | none =>
    obtain ⟨deadlines, replays, hpark⟩ := park_of_open hclosed alive entry e
    rw [hpark]
    exact
      { pipeline := rfl
        nextEntry := rfl
        accounts := ⟨[], rfl, by rw [List.map_append]; exact .refl _⟩
        outcomes := nofun
        lasts := fun _ => rfl
        closed := by simp
        kept := by
          refine ⟨fun x hx => ?_, fun reason h => ?_⟩
          · cases List.mem_append.1 hx with
            | inl hx => exact hkept.rearmed x hx
            | inr hx =>
              rw [List.mem_singleton.1 hx]
              exact rearm_ne_sent entry.staged _
          · rw [hclosed] at h
            cases h }

theorem followed_settle (alive : Bool) (e : Entry κ) (outcome : Outcome) (hkept : Kept why r) :
    Followed why r [.entry e] [] (r.settle alive e outcome).1 (r.settle alive e outcome).2 := by
  cases outcome with
  | ok response =>
    have hfinal : Final r.closed (.ok response) := trivial
    exact followed_ended (.entry e) hkept (.inl hfinal)
  | error error =>
    cases htransient : error.isTransient with
    | true =>
      have hsettle : r.settle alive e (.error error) = r.park alive e error := by
        rw [settle, if_pos htransient]
      rw [hsettle]
      exact followed_park alive e error hkept
    | false =>
      have hsettle : r.settle alive e (.error error) = (r, .ended e.tag (.error error)) := by
        rw [settle, htransient, if_neg Bool.false_ne_true]
      have hfinal : Final r.closed (.error error) := .inl htransient
      rw [hsettle]
      exact followed_ended (.entry e) hkept (.inl hfinal)

theorem followed_follow (alive : Bool) (hs : List (Happening (Owner κ))) (hkept : Kept why r)
    (hreason : .closed ∈ (⟨hs, [], false⟩ : Report (Owner κ)).states →
      ∃ reason, why reason ∧ r.pipeline.cell.terminal = some reason) :
    Followed why r (⟨hs, [], false⟩ : Report (Owner κ)).tags
      (⟨hs, [], false⟩ : Report (Owner κ)).states (r.follow alive hs).1 (r.follow alive hs).2 := by
  induction hs generalizing r alive with
  | nil => exact .of_eq hkept rfl rfl rfl rfl nofun rfl
  | cons h hs ih =>
    cases h with
    | entered s =>
      have hfirst := followed_entered (s := s) hkept fun hs => hreason (hs ▸ List.mem_cons_self)
      have hrest := ih s.isAlive hfirst.kept
        fun hmem => hfirst.pipeline ▸ hreason (List.mem_cons_of_mem s hmem)
      exact hfirst.andThen hrest
    | ended o outcome =>
      cases o with
      | plain tag =>
        have hfirst : Followed why r [.plain tag] [] r (.ended tag outcome) :=
          followed_ended (.plain tag) hkept (.inr rfl)
        exact hfirst.andThen (ih alive hkept hreason)
      | entry e =>
        have hfirst := followed_settle alive e outcome hkept
        have hrest := ih alive hfirst.kept fun hmem => hfirst.pipeline ▸ hreason hmem
        exact hfirst.andThen hrest

theorem followed_absorb {p : Pipeline (Owner κ)} {rep : Report (Owner κ)}
    (hkept : Kept why { r with pipeline := p })
    (hreason : .closed ∈ rep.states → ∃ reason, why reason ∧ p.cell.terminal = some reason) :
    Followed why { r with pipeline := p } rep.tags rep.states (r.absorb (p, rep)).1
      (r.absorb (p, rep)).2 :=
  { followed_follow r.pipeline.state.isAlive rep.happenings hkept hreason with }

end TupleClient.Retry
