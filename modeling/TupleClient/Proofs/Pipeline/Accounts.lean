import Mathlib.Data.List.Nodup
import TupleClient.Pipeline

/-!
Every operation ends once. A step moves operations off the table into its report, and adds to the
table only under numbers that were never given before.
-/
namespace TupleClient

namespace Report

variable {κ : Type}

def tags (r : Report κ) : List κ := r.outcomes.map Prod.fst

@[simp] theorem tags_ended (tag : κ) (o : Outcome) : (ended tag o).tags = [tag] := rfl

@[simp] theorem tags_andThen (r s : Report κ) : (r.andThen s).tags = r.tags ++ s.tags := by
  simp [tags, outcomes, andThen]

theorem mem_outcomes {r : Report κ} {tag : κ} {o : Outcome} :
    (tag, o) ∈ r.outcomes ↔ .ended tag o ∈ r.happenings := by
  rw [outcomes, List.mem_filterMap]
  constructor
  · rintro ⟨s | ⟨tag, o⟩, hmem, hsome⟩
    · cases hsome
    · cases hsome
      exact hmem
  · exact fun hmem => ⟨_, hmem, rfl⟩

theorem mem_states {r : Report κ} {s : Lifecycle.State} :
    s ∈ r.states ↔ .entered s ∈ r.happenings := by
  rw [states, List.mem_filterMap]
  constructor
  · rintro ⟨s | ⟨tag, o⟩, hmem, hsome⟩
    · cases hsome
      exact hmem
    · cases hsome
  · exact fun hmem => ⟨_, hmem, rfl⟩

theorem andThen_silent (r : Report κ) : r.andThen silent = r := by
  simp [andThen, silent]

theorem silent_andThen (r : Report κ) : silent.andThen r = r := by
  simp [andThen, silent]

theorem andThen_assoc (r s t : Report κ) : (r.andThen s).andThen t = r.andThen (s.andThen t) := by
  simp [andThen, Bool.or_assoc]

theorem outcomes_andThen (r s : Report κ) : (r.andThen s).outcomes = r.outcomes ++ s.outcomes := by
  simp [outcomes, andThen]

theorem states_andThen (r s : Report κ) : (r.andThen s).states = r.states ++ s.states := by
  simp [states, andThen]

end Report

namespace Pipeline

variable {κ : Type}

def entries (p : Pipeline κ) : List (Nat × κ) := p.pending.map fun x => (x.1, x.2.tag)

/-- The table is in the order of the numbers, and all of them were given. -/
structure Numbered (p : Pipeline κ) : Prop where
  sorted : (p.entries.map Prod.fst).Pairwise (· < ·)
  lt_nextSync : ∀ x ∈ p.entries, x.1 < p.nextSync

/-- From `p` to `q` the numbers of `new` were given, one after another, and `r` tells of everything
that left the table or never came onto it. If the socket was let go, what waits has come since. -/
structure Settles (p : Pipeline κ) (new : List (Nat × κ)) (q : Pipeline κ) (r : Report κ) :
    Prop where
  sublist : q.entries.Sublist (p.entries ++ new)
  accounts : (r.tags ++ q.entries.map Prod.snd).Perm ((p.entries ++ new).map Prod.snd)
  numbers : new.map Prod.fst = List.range' p.nextSync new.length
  nextSync : q.nextSync = p.nextSync + new.length
  cleared : r.hungUp = true → q.entries.Sublist new

variable {p q : Pipeline κ} {r : Report κ} {new : List (Nat × κ)}

theorem Settles.of_eq (hentries : q.entries = p.entries) (hnext : q.nextSync = p.nextSync)
    (htags : r.tags = []) (hkept : r.hungUp = false) : Settles p [] q r where
  sublist := by rw [hentries, List.append_nil]
  accounts := by rw [htags, hentries, List.append_nil, List.nil_append]
  numbers := rfl
  nextSync := hnext
  cleared := by
    intro h
    rw [hkept] at h
    cases h

theorem Settles.refl (p : Pipeline κ) : Settles p [] p .silent := .of_eq rfl rfl rfl rfl

theorem Settles.andThen {last : Pipeline κ} {s : Report κ} {more : List (Nat × κ)}
    (h : Settles p new q r) (g : Settles q more last s) :
    Settles p (new ++ more) last (r.andThen s) where
  sublist := by
    rw [← List.append_assoc]
    exact g.sublist.trans (h.sublist.append_right more)
  accounts := by
    have hmore := g.accounts.append_left r.tags
    have hnew := h.accounts.append_right (more.map Prod.snd)
    rw [Report.tags_andThen, List.append_assoc]
    refine hmore.trans ?_
    rw [List.map_append, ← List.append_assoc, ← List.append_assoc, List.map_append]
    exact hnew
  numbers := by
    rw [List.map_append, h.numbers, g.numbers, h.nextSync, List.length_append,
      List.range'_append_1]
  nextSync := by rw [g.nextSync, h.nextSync, List.length_append, Nat.add_assoc]
  cleared := by
    intro hcleared
    rcases Bool.or_eq_true_iff.mp hcleared with hr | hs
    · exact g.sublist.trans ((h.cleared hr).append_right more)
    · exact (g.cleared hs).trans (List.sublist_append_right new more)

theorem Settles.and {last : Pipeline κ} {s : Report κ} (h : Settles p [] q r)
    (g : Settles q [] last s) : Settles p [] last (r.andThen s) := h.andThen g

/-- A report of nothing but states and bytes may stand in front. -/
theorem Settles.of_tags {s : Report κ} (h : Settles p new q r) (htags : s.tags = r.tags)
    (hhungUp : s.hungUp = r.hungUp) : Settles p new q s where
  sublist := h.sublist
  accounts := htags ▸ h.accounts
  numbers := h.numbers
  nextSync := h.nextSync
  cleared := hhungUp ▸ h.cleared

theorem Settles.sorted (h : Settles p new q r) (hp : p.Numbered) :
    ((p.entries ++ new).map Prod.fst).Pairwise (· < ·) := by
  rw [List.map_append, h.numbers, List.pairwise_append]
  refine ⟨hp.sorted, List.pairwise_lt_range', ?_⟩
  intro a ha b hb
  obtain ⟨x, hx, rfl⟩ := List.mem_map.mp ha
  have hlt := hp.lt_nextSync x hx
  have hle := (List.mem_range'_1.mp hb).1
  omega

theorem Settles.numbered (h : Settles p new q r) (hp : p.Numbered) : q.Numbered where
  sorted := (h.sorted hp).sublist (h.sublist.map Prod.fst)
  lt_nextSync := by
    intro x hx
    rw [h.nextSync]
    rcases List.mem_append.mp (h.sublist.subset hx) with hx | hx
    · have := hp.lt_nextSync x hx
      omega
    · have hnumber : x.1 ∈ new.map Prod.fst := List.mem_map_of_mem hx
      rw [h.numbers] at hnumber
      exact (List.mem_range'_1.mp hnumber).2

theorem filter_ne_perm {α : Type} {l : List (Nat × α)} {id : Nat} {a : α}
    (hsorted : (l.map Prod.fst).Pairwise (· < ·)) (hl : l.lookup id = some a) :
    ((id, a) :: l.filter (·.1 != id)).Perm l := by
  induction l with
  | nil => cases hl
  | cons x l ih =>
    obtain ⟨key, b⟩ := x
    rw [List.map_cons, List.pairwise_cons] at hsorted
    by_cases hkey : id = key
    · subst hkey
      rw [List.lookup_cons_self, Option.some.injEq] at hl
      subst hl
      -- The other numbers are larger, so nothing else goes.
      have hrest : l.filter (·.1 != id) = l := by
        refine List.filter_eq_self.mpr fun y hy => ?_
        have hlt := hsorted.1 y.1 (List.mem_map_of_mem hy)
        simp only [bne_iff_ne]
        omega
      have hgone : ¬(((id, b) : Nat × α).1 != id) = true := by simp
      rw [List.filter_cons, if_neg hgone, hrest]
    · have hne : (id == key) = false := beq_eq_false_iff_ne.mpr hkey
      have hkeep : ((key, b).1 != id) = true := bne_iff_ne.mpr (Ne.symm hkey)
      rw [List.lookup_cons, hne] at hl
      rw [List.filter_cons, if_pos hkeep]
      exact (List.Perm.swap ..).trans ((ih hsorted.2 hl).cons (key, b))

theorem Numbered.sorted_pending (hp : p.Numbered) :
    (p.pending.map Prod.fst).Pairwise (· < ·) := by
  have h := hp.sorted
  rwa [entries, List.map_map] at h

theorem settles_withdraw (hp : p.Numbered) {id : Nat} {op : Operation κ}
    (hop : p.operation? id = some op) (outcome : Outcome) :
    Settles p [] (p.withdraw id op) (.ended op.tag outcome) where
  sublist := by
    rw [List.append_nil]
    exact List.filter_sublist.map _
  accounts := by
    have hperm := (filter_ne_perm hp.sorted_pending hop).map fun x => x.2.tag
    simpa [entries, withdraw, Function.comp_def] using hperm
  numbers := rfl
  nextSync := rfl
  cleared := nofun

theorem settles_complete (hp : p.Numbered) (id : Nat) (outcome : Outcome) :
    Settles p [] (p.complete id outcome).1 (p.complete id outcome).2 := by
  unfold complete
  cases hop : p.operation? id with
  | none => exact .refl p
  | some op => exact settles_withdraw hp hop outcome

theorem settles_teardown (p : Pipeline κ) (e : ClientError) :
    Settles p [] (p.teardown e).1 (p.teardown e).2 where
  sublist := List.nil_sublist _
  accounts := by
    simp [Report.tags, Report.outcomes, entries, teardown, Function.comp_def]
  numbers := rfl
  nextSync := rfl
  cleared _ := .refl _

theorem settles_fail (p : Pipeline κ) (generation : Nat) (e : ClientError) :
    Settles p [] (p.fail generation e).1 (p.fail generation e).2.1 := by
  unfold fail
  split
  · rename_i cell _
    have hcell : Settles p [] { p with cell := cell } (.entered .reconnecting) :=
      .of_eq rfl rfl rfl rfl
    exact hcell.and (settles_teardown { p with cell := cell } e)
  · exact .refl p

theorem settles_close (p : Pipeline κ) (reason : ClientError) :
    Settles p [] (p.close reason).1 (p.close reason).2.1 := by
  unfold close
  split
  · rename_i cell _
    have hcell : Settles p [] { p with cell := cell } (.entered .closed) := .of_eq rfl rfl rfl rfl
    have htorn := hcell.and (settles_teardown { p with cell := cell } reason)
    exact { htorn with }
  · exact .refl p

theorem settles_forceReconnect (p : Pipeline κ) :
    Settles p [] p.forceReconnect.1 p.forceReconnect.2.1 := by
  unfold forceReconnect
  split
  · exact settles_fail ..
  · exact .refl p

theorem settles_transition (p : Pipeline κ) (source target : Lifecycle.State) :
    Settles p [] (p.transition source target).1 (p.transition source target).2.1 := by
  unfold transition
  split
  · exact .of_eq rfl rfl rfl rfl
  · exact .refl p

theorem settles_attach (p : Pipeline κ) (generation : Nat) (address : String) (rest : Bytes)
    (mishap : Option Mishap) :
    Settles p [] (p.attach generation address rest mishap).1 .silent := by
  unfold attach
  split
  · split <;> exact .of_eq rfl rfl rfl rfl
  · exact .refl p

theorem settles_register (p : Pipeline κ) (now : Nat) (s : Submission κ) :
    Settles p [(p.nextSync, s.tag)]
      (register { p with nextSync := p.nextSync + 1 } now p.nextSync s) .silent where
  sublist := by
    rw [entries, register, List.map_append]
    exact .refl _
  accounts := by
    rw [entries, register, List.map_append]
    exact .refl _
  numbers := rfl
  nextSync := rfl
  cleared := nofun

theorem settles_refused (p : Pipeline κ) (tag : κ) (outcome : Outcome) :
    Settles p [(p.nextSync, tag)] { p with nextSync := p.nextSync + 1 } (.ended tag outcome) where
  sublist := List.sublist_append_left ..
  accounts := by
    rw [List.map_append]
    exact List.perm_append_comm
  numbers := rfl
  nextSync := rfl
  cleared := nofun

theorem settles_writeDirect (hp : p.Numbered) (fault : Option String) (sync : Nat)
    (bytes : Bytes) :
    Settles p [] (p.writeDirect fault sync bytes).1 (p.writeDirect fault sync bytes).2 := by
  unfold writeDirect
  split
  · exact settles_complete hp ..
  · exact .of_eq rfl rfl rfl rfl
  · rename_i socket reason _
    have hfail := settles_fail p socket.generation (.connection (.io reason))
    -- What the failure of the connection has ended is not ended again.
    exact hfail.and (settles_complete (hfail.numbered hp) ..)

theorem settles_dispatchFrame (hp : p.Numbered) (fault : Option String) (sync : Nat)
    (bytes : Bytes) :
    Settles p [] (p.dispatchFrame fault sync bytes).1 (p.dispatchFrame fault sync bytes).2 := by
  unfold dispatchFrame
  split
  · exact settles_writeDirect hp ..
  · split
    · exact .of_eq rfl rfl rfl rfl
    · exact settles_complete hp ..

theorem submit_number (p : Pipeline κ) (now : Nat) (fault : Option String) (s : Submission κ) :
    (p.submit now fault s).2.2 = p.nextSync := by
  simp only [submit]
  split
  · rfl
  · split <;> rfl

theorem settles_submit (hp : p.Numbered) (now : Nat) (fault : Option String) (s : Submission κ) :
    Settles p [(p.nextSync, s.tag)] (p.submit now fault s).1 (p.submit now fault s).2.1 := by
  simp only [submit]
  split
  · exact settles_refused ..
  · split
    · exact settles_refused ..
    · have hregister := settles_register p now s
      exact hregister.andThen (settles_dispatchFrame (hregister.numbered hp) ..)

theorem entries_submit_of_hungUp (hp : p.Numbered) {now : Nat} {fault : Option String}
    {s : Submission κ} (h : (p.submit now fault s).2.1.hungUp = true) :
    (p.submit now fault s).1.entries = [] := by
  simp only [submit] at h ⊢
  split at h
  · cases h
  · split at h
    · cases h
    · have hnumbered := (settles_register p now s).numbered hp
      exact List.sublist_nil.mp ((settles_dispatchFrame hnumbered ..).cleared h)

theorem settles_drain (p : Pipeline κ) (fault : Option String) :
    Settles p [] (p.drain fault).1 (p.drain fault).2 := by
  unfold drain
  split
  · rename_i socket outbox b bs _ _
    have htaken : Settles p [] { p with outbox := outbox } .silent := .of_eq rfl rfl rfl rfl
    simp only
    split
    · exact .of_eq rfl rfl rfl rfl
    · exact htaken.and (settles_fail ..)
  · exact .refl p

theorem settles_dispatch (hp : p.Numbered) (m : Message) :
    Settles p [] (p.dispatch m).1 (p.dispatch m).2.1 := by
  unfold dispatch
  extract_lets seen
  have hseen : Settles p [] seen .silent := by
    unfold seen
    split <;> exact .of_eq rfl rfl rfl rfl
  have hnumbered := hseen.numbered hp
  clear_value seen
  split
  · exact hseen
  · split
    · exact hseen
    · rename_i op hop
      simp only
      split <;> exact hseen.and (settles_withdraw hnumbered hop _)

theorem settles_readFrames (hp : p.Numbered) (generation : Nat) (ended : Bool) (input : Bytes) :
    Settles p [] (p.readFrames generation ended input).1
      (p.readFrames generation ended input).2 := by
  fun_induction readFrames p generation ended input with
  | case1 p input _ _ failed report _ hfail =>
    have h := settles_fail p generation ClientError.endOfInput
    rwa [hfail] at h
  | case2 p input _ _ => exact .of_eq rfl rfl rfl rfl
  | case3 p input e _ _ failed report _ hfail =>
    have h := settles_fail p generation (.connection (.violation e.message))
    rwa [hfail] at h
  | case4 p input m rest _ next report hdispatch done more hmore ih =>
    have h := settles_dispatch hp m
    rw [hdispatch] at h
    have hrest := ih (h.numbered hp)
    rw [hmore] at hrest
    exact h.and hrest
  | case5 p input m rest _ next report e hdispatch failed last _ hfail =>
    have h := settles_dispatch hp m
    rw [hdispatch] at h
    have hlast := settles_fail next generation (.connection e)
    rw [hfail] at hlast
    exact h.and hlast

theorem settles_readOn (hp : p.Numbered) : Settles p [] p.readOn.1 p.readOn.2 := by
  unfold readOn
  split
  · split
    · exact settles_readFrames hp ..
    · exact .refl p
  · exact .refl p

theorem settles_readOn_of_eq (hp : p.Numbered) (hentries : q.entries = p.entries)
    (hnext : q.nextSync = p.nextSync) : Settles p [] q.readOn.1 q.readOn.2 := by
  have hchanged : Settles p [] q .silent := .of_eq hentries hnext rfl rfl
  exact hchanged.and (settles_readOn (hchanged.numbered hp))

theorem settles_started (hp : p.Numbered) (generation : Nat) (loop : Lifecycle.Loop) :
    Settles p [] (p.started generation loop).1 (p.started generation loop).2.1 := by
  unfold started
  split
  · rename_i cell _
    exact (settles_readOn_of_eq (q := { p with cell := cell }) hp rfl rfl).of_tags rfl
      (Bool.false_or _)
  · exact .refl p

theorem settles_expireAll (hp : p.Numbered) (ids : List Nat) :
    Settles p [] (p.expireAll ids).1 (p.expireAll ids).2 := by
  induction ids generalizing p with
  | nil => exact .refl p
  | cons id ids ih =>
    have h : Settles p [] (p.expire id).1 (p.expire id).2 := settles_complete hp ..
    exact h.and (ih (h.numbered hp))

theorem settles_tick (hp : p.Numbered) (now : Nat) :
    Settles p [] (p.tick now).1 (p.tick now).2 := by
  have hserved : Settles p [] { p with deadlines := (p.deadlines.service now).1 } .silent :=
    .of_eq rfl rfl rfl rfl
  exact hserved.and (settles_expireAll (hserved.numbered hp) _)

theorem settles_signal (hp : p.Numbered) (s : Signal) :
    Settles p [] (p.signal s).1 (p.signal s).2 := by
  cases s with
  | supervised => exact settles_transition ..
  | seeking => exact settles_transition ..
  | begun => exact .of_eq rfl rfl rfl rfl
  | attached generation address rest mishap => exact settles_attach ..
  | started generation loop => exact settles_started hp ..
  | writable fault => exact settles_drain ..
  | received bytes => exact settles_readOn_of_eq hp rfl rfl
  | hungUp => exact settles_readOn_of_eq hp rfl rfl
  | clock now => exact settles_tick hp now
  | expired id => exact settles_complete hp ..
  | broken generation e => exact settles_fail ..
  | reconnect => exact settles_forceReconnect p
  | closed reason => exact settles_close ..

/-- The number that an event gives, with the tag it is given for. -/
def gives (p : Pipeline κ) : Event κ → List (Nat × κ)
  | .submit now fault s => [((p.submit now fault s).2.2, s.tag)]
  | .signal _ => []

/-- The numbers that are given on the way, the first one first. -/
def given (p : Pipeline κ) : List (Event κ) → List (Nat × κ)
  | [] => []
  | e :: es => p.gives e ++ (p.step e).1.given es

theorem settles_step (hp : p.Numbered) (e : Event κ) :
    Settles p (p.gives e) (p.step e).1 (p.step e).2 := by
  cases e with
  | submit now fault s =>
    rw [gives, submit_number]
    exact settles_submit hp ..
  | signal s => exact settles_signal hp s

theorem entries_step_of_hungUp (hp : p.Numbered) {e : Event κ}
    (h : (p.step e).2.hungUp = true) : (p.step e).1.entries = [] := by
  cases e with
  | submit now fault s => exact entries_submit_of_hungUp hp h
  | signal s => exact List.sublist_nil.mp ((settles_signal hp s).cleared h)

theorem settles_run (hp : p.Numbered) (es : List (Event κ)) :
    Settles p (p.given es) (p.run es).1 (p.run es).2 := by
  induction es generalizing p with
  | nil => exact .refl p
  | cons e es ih =>
    have h := settles_step hp e
    exact h.andThen (ih (h.numbered hp))

theorem run_append (p : Pipeline κ) (es fs : List (Event κ)) :
    p.run (es ++ fs) =
      (((p.run es).1.run fs).1, (p.run es).2.andThen ((p.run es).1.run fs).2) := by
  induction es generalizing p with
  | nil => rw [List.nil_append, run, Report.silent_andThen]
  | cons e es ih => simp only [List.cons_append, run, ih, Report.andThen_assoc]

end Pipeline
end TupleClient
