import TupleClient.Proofs.Pipeline.Accounts

/-!
What has become of the operations of a run: each one waits under its number, or it has ended and its
submitter was told so once. When a connection is new up none waits.
-/
namespace TupleClient

namespace Report

variable {κ : Type} [DecidableEq κ]

def outcomesOf (r : Report κ) (tag : κ) : List Outcome :=
  (r.outcomes.filter (·.1 == tag)).map Prod.snd

theorem length_outcomesOf (r : Report κ) (tag : κ) :
    (r.outcomesOf tag).length = r.tags.count tag := by
  rw [outcomesOf, List.length_map, tags, List.count, List.countP_map, List.countP_eq_length_filter]
  rfl

end Report

namespace Pipeline

variable {κ : Type} {settings : PipelineSettings} {p q : Pipeline κ} {r : Report κ}
  {new : List (Nat × κ)}

/-- Where the operations under the numbers of `new` stand: the tags of those that are not on the
table are the tags that `r` tells of, each as often there as here. -/
structure Accounted [DecidableEq κ] (new : List (Nat × κ)) (p : Pipeline κ) (r : Report κ) :
    Prop where
  numbers : (new.map Prod.fst).Nodup
  waiting : ∀ id op, p.operation? id = some op → (id, op.tag) ∈ new
  ended : r.tags.Perm ((new.filter fun x => !p.isPending x.1).map Prod.snd)
  once : (new.map Prod.snd).Nodup → ∀ id tag, (id, tag) ∈ new →
    (p.isPending id = true ∧ r.outcomesOf tag = []) ∨
      (p.isPending id = false ∧ ∃ outcome, r.outcomesOf tag = [outcome])

theorem mem_entries {id : Nat} {op : Operation κ} (h : p.operation? id = some op) :
    (id, op.tag) ∈ p.entries := by
  obtain ⟨before, after, hpending, -⟩ := List.lookup_eq_some_iff.mp h
  rw [entries, hpending, List.map_append, List.map_cons]
  exact List.mem_append_right _ List.mem_cons_self

theorem isPending_eq (p : Pipeline κ) (id : Nat) :
    p.isPending id = decide (id ∈ p.entries.map Prod.fst) := by
  rw [Bool.eq_iff_iff, isPending, operation?, List.lookup_isSome_iff, entries, List.map_map]
  simp

theorem filter_keys_of_sublist {l m : List (Nat × κ)} (h : l.Sublist m)
    (hm : (m.map Prod.fst).Nodup) : m.filter (fun x => x.1 ∈ l.map Prod.fst) = l := by
  induction h with
  | slnil => rfl
  | @cons l m x hlm ih =>
    rw [List.map_cons, List.nodup_cons] at hm
    have hx : x.1 ∉ l.map Prod.fst := fun hmem => hm.1 ((hlm.map Prod.fst).subset hmem)
    rw [List.filter_cons, if_neg (by simpa using hx), ih hm.2]
  | @cons_cons l m x hlm ih =>
    rw [List.map_cons, List.nodup_cons] at hm
    have hrest : m.filter (fun y => y.1 ∈ (x :: l).map Prod.fst) =
        m.filter (fun y => y.1 ∈ l.map Prod.fst) := by
      refine List.filter_congr fun y hy => ?_
      have hne : y.1 ≠ x.1 := fun heq => hm.1 (heq ▸ List.mem_map_of_mem hy)
      simp [hne]
    rw [List.filter_cons, if_pos (by simp), hrest, ih hm.2]

/-- Where numbers and tags differ, an operation was told of once if it does not wait, and not yet
if it does. -/
theorem once_of_ended [DecidableEq κ]
    (hended : r.tags.Perm ((new.filter fun x => !p.isPending x.1).map Prod.snd))
    (htags : (new.map Prod.snd).Nodup) {id : Nat} {tag : κ} (hmem : (id, tag) ∈ new) :
    (p.isPending id = true ∧ r.outcomesOf tag = []) ∨
      (p.isPending id = false ∧ ∃ outcome, r.outcomesOf tag = [outcome]) := by
  have hlength := r.length_outcomesOf tag
  rw [hended.count_eq] at hlength
  cases hpending : p.isPending id with
  | true =>
    -- Another operation with this tag would have this number as well.
    have hnone : tag ∉ (new.filter fun x => !p.isPending x.1).map Prod.snd := by
      intro htag
      obtain ⟨x, hx, hxtag⟩ := List.mem_map.mp htag
      obtain ⟨hxmem, hxpending⟩ := List.mem_filter.mp hx
      have hsame : x = (id, tag) := List.inj_on_of_nodup_map htags hxmem hmem hxtag
      rw [hsame, hpending] at hxpending
      cases hxpending
    rw [List.count_eq_zero_of_not_mem hnone] at hlength
    exact .inl ⟨rfl, List.eq_nil_of_length_eq_zero hlength⟩
  | false =>
    have hone : tag ∈ (new.filter fun x => !p.isPending x.1).map Prod.snd := by
      refine List.mem_map.mpr ⟨(id, tag), List.mem_filter.mpr ⟨hmem, ?_⟩, rfl⟩
      rw [hpending]
      rfl
    have hnodup : ((new.filter fun x => !p.isPending x.1).map Prod.snd).Nodup :=
      htags.sublist (List.filter_sublist.map Prod.snd)
    rw [List.count_eq_one_of_mem hnodup hone] at hlength
    exact .inr ⟨rfl, List.length_eq_one_iff.mp hlength⟩

theorem Settles.accounted [DecidableEq κ] (h : Settles p new q r) (hp : p.pending = []) :
    Accounted new q r := by
  have hempty : p.entries = [] := by rw [entries, hp, List.map_nil]
  have hnumbers : (new.map Prod.fst).Nodup := by
    rw [h.numbers]
    exact List.nodup_range'
  have hsublist : q.entries.Sublist new := by simpa [hempty] using h.sublist
  have hwaiting : new.filter (fun x => q.isPending x.1) = q.entries := by
    simp only [isPending_eq]
    exact filter_keys_of_sublist hsublist hnumbers
  have hended : r.tags.Perm ((new.filter fun x => !q.isPending x.1).map Prod.snd) := by
    have hall := (List.filter_append_perm (fun x => q.isPending x.1) new).map Prod.snd
    have haccounts := h.accounts
    rw [hwaiting, List.map_append] at hall
    rw [hempty, List.nil_append] at haccounts
    have hsplit := haccounts.trans (hall.symm.trans List.perm_append_comm)
    exact (List.perm_append_right_iff _).mp hsplit
  exact
    { numbers := hnumbers
      waiting := fun id op hop => hsublist.subset (mem_entries hop)
      ended := hended
      once := fun htags id tag hmem => once_of_ended hended htags hmem }

theorem Settles.settled [DecidableEq κ] {last : Pipeline κ} {s : Report κ}
    (h : Settles (create settings) new p r) (g : Settles p [] last s) :
    Accounted new last (r.andThen s) := by
  have hall := h.andThen g
  rw [List.append_nil] at hall
  exact hall.accounted rfl

/-- Nothing waits, and every operation was told its outcome, once. -/
structure AllTold [DecidableEq κ] (new : List (Nat × κ)) (p : Pipeline κ) (r : Report κ) :
    Prop where
  pending : p.pending = []
  ended : r.tags.Perm (new.map Prod.snd)
  once : (new.map Prod.snd).Nodup → ∀ id tag, (id, tag) ∈ new →
    ∃ outcome, r.outcomesOf tag = [outcome]

theorem Accounted.allTold [DecidableEq κ] (h : Accounted new p r) (hp : p.pending = []) :
    AllTold new p r := by
  have hnone : ∀ id, p.isPending id = false := by
    intro id
    rw [isPending, operation?, hp]
    rfl
  have hended := h.ended
  simp only [hnone, Bool.not_false, List.filter_true] at hended
  refine ⟨hp, hended, fun htags id tag hmem => ?_⟩
  rcases h.once htags id tag hmem with ⟨hpending, -⟩ | ⟨-, htold⟩
  · rw [hnone] at hpending
    cases hpending
  · exact htold

theorem numbered_create (settings : PipelineSettings) :
    (create settings : Pipeline κ).Numbered where
  sorted := .nil
  lt_nextSync := nofun

theorem pending_fail {generation : Nat} {e : ClientError} (h : (p.fail generation e).2.2 = true) :
    (p.fail generation e).1.pending = [] := by
  unfold fail at h ⊢
  split
  · rfl
  · rename_i hcell
    simp [hcell] at h

theorem pending_close {reason : ClientError} (h : (p.close reason).2.2 = true) :
    (p.close reason).1.pending = [] := by
  unfold close at h ⊢
  split
  · rfl
  · rename_i hcell
    simp [hcell] at h

theorem pending_forceReconnect (h : p.forceReconnect.2.2 = true) :
    p.forceReconnect.1.pending = [] := by
  unfold forceReconnect at h ⊢
  split
  · rename_i socket hsocket
    rw [hsocket] at h
    exact pending_fail h
  · rename_i hsocket
    rw [hsocket] at h
    cases h

/-- In every run each operation that came in either waits and was told nothing, or does not wait and
was told its outcome once. When the connection is given up, whoever asks for it, and when everything
is closed, each one was told. -/
theorem each_told_once [DecidableEq κ] (settings : PipelineSettings) (es : List (Event κ)) :
    let new := (create settings : Pipeline κ).given es
    let p := ((create settings : Pipeline κ).run es).1
    let r := ((create settings : Pipeline κ).run es).2
    Accounted new p r ∧
      (∀ generation e, (p.fail generation e).2.2 = true →
        AllTold new (p.fail generation e).1 (r.andThen (p.fail generation e).2.1)) ∧
      (p.forceReconnect.2.2 = true →
        AllTold new p.forceReconnect.1 (r.andThen p.forceReconnect.2.1)) ∧
      (∀ reason, (p.close reason).2.2 = true →
        AllTold new (p.close reason).1 (r.andThen (p.close reason).2.1)) ∧
      ∀ e, (p.step e).2.hungUp = true →
        AllTold (new ++ p.gives e) (p.step e).1 (r.andThen (p.step e).2) := by
  intro new p r
  have hcreated := numbered_create (κ := κ) settings
  have hrun : Settles (create settings) new p r := settles_run hcreated es
  have hnumbered := hrun.numbered hcreated
  refine ⟨hrun.accounted rfl, ?_, ?_, ?_, ?_⟩
  · intro generation e h
    exact (hrun.settled (settles_fail ..)).allTold (pending_fail h)
  · intro h
    exact (hrun.settled (settles_forceReconnect p)).allTold (pending_forceReconnect h)
  · intro reason h
    exact (hrun.settled (settles_close ..)).allTold (pending_close h)
  · intro e h
    have hstep := hrun.andThen (settles_step hnumbered e)
    have hempty := entries_step_of_hungUp hnumbered h
    exact (hstep.accounted rfl).allTold (List.map_eq_nil_iff.mp hempty)

def trail : List (Event Nat) :=
  let ping (timeout : Option Nat) (tag : Nat) : Event Nat :=
    .submit 0 none ⟨.ping, .ok ⟨.empty, .empty⟩, timeout, tag⟩
  [ping none 7, .signal .supervised, .signal .seeking, .signal .begun,
    .signal (.attached 1 "a:1" [] none), .signal (.started 1 .writer), .signal (.started 1 .reader),
    ping (some 50) 8, ping none 9, .signal (.clock 50)]

theorem each_told_once_of_close :
    let p := ((create ⟨none, 1000, 1024, Settings.half, 1024⟩).run trail).1
    let r := ((create ⟨none, 1000, 1024, Settings.half, 1024⟩).run trail).2
    (p.isPending 2 = false ∧ ∃ outcome, r.outcomesOf 8 = [outcome]) ∧
      (p.isPending 3 = true ∧ r.outcomesOf 9 = []) ∧
      ∃ outcome,
        (r.andThen (p.close (.connection .notConnected)).2.1).outcomesOf 9 = [outcome] := by
  intro p r
  obtain ⟨hrun, -, -, hclose, -⟩ :=
    each_told_once ⟨none, 1000, 1024, Settings.half, 1024⟩ trail
  have hgiven : (create ⟨none, 1000, 1024, Settings.half, 1024⟩).given trail =
      [(1, 7), (2, 8), (3, 9)] := by decide +kernel
  have hended : p.isPending 2 = false := by decide +kernel
  have hwaits : p.isPending 3 = true := by decide +kernel
  have hcloses : (p.close (.connection .notConnected)).2.2 = true := by decide +kernel
  rw [hgiven] at hrun hclose
  refine ⟨?_, ?_, (hclose _ hcloses).once (by decide) 3 9 (by decide)⟩
  · rcases hrun.once (by decide) 2 8 (by decide) with ⟨hpending, -⟩ | htold
    · exact absurd (hended.symm.trans hpending) Bool.false_ne_true
    · exact htold
  · rcases hrun.once (by decide) 3 9 (by decide) with hwaiting | ⟨hpending, -⟩
    · exact hwaiting
    · exact absurd (hpending.symm.trans hwaits) Bool.false_ne_true

end Pipeline
end TupleClient
