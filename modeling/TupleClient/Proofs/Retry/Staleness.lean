import TupleClient.Proofs.Catalog.Refreshing
import TupleClient.Proofs.Retry.Journal

/-!
What a journal says of the entries that were refused for a stale schema, and what the retries keep
to with every note of it.
-/
namespace TupleClient.Retry

variable {κ : Type} {log : List (Note κ)} {n : Note κ} {id : Nat} {err : ClientError}

/-- A try of the entry was refused for a stale schema, and the catalog was not read again since. -/
def Stale (log : List (Note κ)) (id : Nat) : Prop :=
  ∃ before e err after, log = before ++ .ended (.entry e) (.error err) :: after ∧ e.id = id ∧
    err.isWrongSchemaVersion = true ∧ ∀ s, .refreshed s ∉ after

/-- The last try of an entry that ended did so with this error. -/
def LastError (log : List (Note κ)) (id : Nat) (err : ClientError) : Prop :=
  ∃ before e after, log = before ++ .ended (.entry e) (.error err) :: after ∧ e.id = id ∧
    ∀ x outcome, .ended (.entry x) outcome ∈ after → x.id ≠ id

def Note.snapshot? : Note κ → Option Catalog.Snapshot
  | .refreshed s => some s
  | .installed s => some s
  | _ => none

/-- The cache after all catalogs of a journal were taken over. -/
def cacheAfter (cache : Catalog.Cache) (log : List (Note κ)) : Catalog.Cache :=
  (log.filterMap Note.snapshot?).foldl Catalog.Cache.install cache

def Note.about? : Note κ → Option (Entry κ)
  | .submitted _ _ s =>
    match s.tag with
    | .entry e => some e
    | .plain _ => none
  | .ended (.entry e) _ => some e
  | _ => none

theorem append_singleton_eq_iff {α : Type} {xs before after : List α} {x y : α} :
    xs ++ [x] = before ++ y :: after ↔
      (xs = before ∧ x = y ∧ after = []) ∨
        ∃ rest, after = rest ++ [x] ∧ xs = before ++ y :: rest := by
  constructor
  · intro h
    rcases List.eq_nil_or_concat after with rfl | ⟨rest, last, rfl⟩
    · obtain ⟨hxs, hx⟩ := List.append_inj' h rfl
      exact .inl ⟨hxs, List.head_eq_of_cons_eq hx, rfl⟩
    · rw [List.concat_eq_append, ← List.cons_append, ← List.append_assoc] at h
      obtain ⟨hxs, hx⟩ := List.append_inj' h rfl
      obtain rfl := List.head_eq_of_cons_eq hx
      exact .inr ⟨rest, List.concat_eq_append, hxs⟩
  · rintro (⟨rfl, rfl, rfl⟩ | ⟨rest, rfl, rfl⟩)
    · rfl
    · rw [List.append_assoc, List.cons_append]

theorem stale_append :
    Stale (log ++ [n]) id ↔
      (∃ e err, n = .ended (.entry e) (.error err) ∧ e.id = id ∧
        err.isWrongSchemaVersion = true) ∨
      (Stale log id ∧ ∀ s, n ≠ .refreshed s) := by
  constructor
  · rintro ⟨before, e, err, after, hlog, hid, herr, hafter⟩
    rcases append_singleton_eq_iff.1 hlog with ⟨-, hn, -⟩ | ⟨rest, rfl, hrest⟩
    · exact .inl ⟨e, err, hn, hid, herr⟩
    · refine .inr ⟨⟨before, e, err, rest, hrest, hid, herr, fun s hs => ?_⟩, fun s hs => ?_⟩
      · exact hafter s (List.mem_append_left _ hs)
      · exact hafter s (List.mem_append_right _ (hs ▸ List.mem_singleton_self n))
  · rintro (⟨e, err, rfl, hid, herr⟩ | ⟨⟨before, e, err, after, rfl, hid, herr, hafter⟩, hn⟩)
    · exact ⟨log, e, err, [], rfl, hid, herr, fun _ hs => absurd hs List.not_mem_nil⟩
    · refine ⟨before, e, err, after ++ [n], ?_, hid, herr, fun s hs => ?_⟩
      · rw [List.append_assoc, List.cons_append]
      · rcases List.mem_append.1 hs with hs | hs
        · exact hafter s hs
        · exact hn s (List.mem_singleton.1 hs).symm

theorem not_stale_refreshed (s : Catalog.Snapshot) : ¬ Stale (log ++ [.refreshed s]) id := by
  rw [stale_append]
  rintro (⟨e, err, hn, -⟩ | ⟨-, hn⟩)
  · cases hn
  · exact hn s rfl

theorem stale_append_of_ne (hentry : ∀ e outcome, n = .ended (.entry e) outcome → e.id ≠ id)
    (hn : ∀ s, n ≠ .refreshed s) : Stale (log ++ [n]) id ↔ Stale log id := by
  rw [stale_append]
  constructor
  · rintro (⟨e, err, rfl, hid, -⟩ | ⟨hstale, -⟩)
    · exact absurd hid (hentry e _ rfl)
    · exact hstale
  · exact fun hstale => .inr ⟨hstale, hn⟩

theorem LastError.append (h : LastError log id err)
    (hentry : ∀ e outcome, n = .ended (.entry e) outcome → e.id ≠ id) :
    LastError (log ++ [n]) id err := by
  obtain ⟨before, e, after, rfl, hid, hafter⟩ := h
  refine ⟨before, e, after ++ [n], ?_, hid, fun x outcome hx => ?_⟩
  · rw [List.append_assoc, List.cons_append]
  · rcases List.mem_append.1 hx with hx | hx
    · exact hafter x outcome hx
    · exact hentry x outcome (List.mem_singleton.1 hx).symm

theorem cacheAfter_append (cache : Catalog.Cache) (first more : List (Note κ)) :
    cacheAfter cache (first ++ more) = cacheAfter (cacheAfter cache first) more := by
  rw [cacheAfter, cacheAfter, cacheAfter, List.filterMap_append, List.foldl_append]

theorem version_le_cacheAfter (cache : Catalog.Cache) (log : List (Note κ)) :
    cache.current.version ≤ (cacheAfter cache log).current.version := by
  rw [cacheAfter]
  induction log.filterMap Note.snapshot? generalizing cache with
  | nil => exact Nat.le_refl _
  | cons s rest ih =>
    rw [List.foldl_cons]
    exact Nat.le_trans (Catalog.Cache.version_le_install cache s) (ih (cache.install s))

/-- The number of an entry and its request, which stay the same from try to try. -/
def Entry.key (e : Entry κ) : Nat × Request := (e.id, e.staged.request)

def Owner.key? : Owner κ → Option (Nat × Request)
  | .entry e => some e.key
  | .plain _ => none

def keys (os : List (Owner κ)) : List (Nat × Request) := os.filterMap Owner.key?

/-- A submission for an entry is as the entry is: not refused for a stale schema, with the request
it had before, by the catalog that was read last. -/
structure Justified (cache : Catalog.Cache) (before : List (Note κ)) (e : Entry κ)
    (s : Submission (Owner κ)) : Prop where
  fresh : ¬ Stale before e.id
  message : s.message = e.staged.request.message (some (cacheAfter cache before).current)
  request : ∀ now fault t x, .submitted now fault t ∈ before → t.tag = .entry x → x.id = e.id →
    x.staged.request = e.staged.request

/-- A parked entry waits for the catalog as long as it is stale, and for nothing else. -/
structure Waits (log : List (Note κ)) (e : Entry κ) : Prop where
  stale : e.staged.stage = .waiting ↔ Stale log e.id
  ready : e.staged.stage = .waiting ∨ e.staged.stage = .ready
  error : ∃ err, LastError log e.id err ∧ err.isTransient = true ∧
    (err.isWrongSchemaVersion = false → e.staged.stage = .ready)

/-- How things stand after the journal `log`: the entries of `out` are on their way, all others are
parked. -/
structure Kempt (cache : Catalog.Cache) (log : List (Note κ)) (out : List (Nat × Request))
    (r : Retry κ) : Prop where
  refreshes : r.refreshes = true
  catalog : r.catalog = some (cacheAfter cache log)
  distinct : (out.map Prod.fst ++ r.parked.map Entry.id).Nodup
  below : ∀ id ∈ out.map Prod.fst ++ r.parked.map Entry.id, id < r.nextEntry
  past : ∀ n ∈ log, ∀ e, n.about? = some e → e.id < r.nextEntry
  request : ∀ x ∈ out ++ r.parked.map Entry.key, ∀ now fault s e,
    .submitted now fault s ∈ log → s.tag = .entry e → e.id = x.1 → e.staged.request = x.2
  fresh : ∀ x ∈ out, ¬ Stale log x.1
  parked : ∀ e ∈ r.parked, Waits log e
  justified : ∀ before now fault s after e, log = before ++ .submitted now fault s :: after →
    s.tag = .entry e → Justified cache before e s

variable {cache : Catalog.Cache} {out out' : List (Nat × Request)} {r q : Retry κ}

theorem Kempt.sublist (h : Kempt cache log out r) (hout : out'.Sublist out)
    (hparked : q.parked.Sublist r.parked) (hcatalog : q.catalog = r.catalog)
    (hrefreshes : q.refreshes = r.refreshes) (hnext : r.nextEntry ≤ q.nextEntry) :
    Kempt cache log out' q := by
  have hids : (out'.map Prod.fst ++ q.parked.map Entry.id).Sublist
      (out.map Prod.fst ++ r.parked.map Entry.id) :=
    (hout.map Prod.fst).append (hparked.map Entry.id)
  have hkeys : (out' ++ q.parked.map Entry.key).Sublist (out ++ r.parked.map Entry.key) :=
    hout.append (hparked.map Entry.key)
  exact
    { refreshes := hrefreshes.trans h.refreshes
      catalog := hcatalog.trans h.catalog
      distinct := h.distinct.sublist hids
      below := fun id hid => Nat.lt_of_lt_of_le (h.below id (hids.subset hid)) hnext
      past := fun n hn e he => Nat.lt_of_lt_of_le (h.past n hn e he) hnext
      request := fun x hx => h.request x (hkeys.subset hx)
      fresh := fun x hx => h.fresh x (hout.subset hx)
      parked := fun e he => h.parked e (hparked.subset he)
      justified := h.justified }

theorem Kempt.perm (h : Kempt cache log out r) (hperm : out'.Perm out) :
    Kempt cache log out' r := by
  have hids : (out'.map Prod.fst ++ r.parked.map Entry.id).Perm
      (out.map Prod.fst ++ r.parked.map Entry.id) := (hperm.map Prod.fst).append_right _
  exact
    { h with
      distinct := hids.nodup_iff.2 h.distinct
      below := fun id hid => h.below id (hids.subset hid)
      request := fun x hx => h.request x ((hperm.append_right _).subset hx)
      fresh := fun x hx => h.fresh x (hperm.subset hx) }

theorem Waits.append {e : Entry κ} (h : Waits log e)
    (hended : ∀ x outcome, n = .ended (.entry x) outcome → x.id ≠ e.id)
    (hn : ∀ s, n ≠ .refreshed s) : Waits (log ++ [n]) e where
  stale := h.stale.trans (stale_append_of_ne hended hn).symm
  ready := h.ready
  error := by
    obtain ⟨err, hlast, herr⟩ := h.error
    exact ⟨err, hlast.append hended, herr⟩

theorem map_fst_keys (out : List (Nat × Request)) (es : List (Entry κ)) :
    (out ++ es.map Entry.key).map Prod.fst = out.map Prod.fst ++ es.map Entry.id := by
  rw [List.map_append, List.map_map]
  rfl

/-- A note that is no catalog: a submission for an entry that is on its way, or the end of a try of
one that is no longer among them. -/
theorem Kempt.append (h : Kempt cache log out r) (hsnapshot : n.snapshot? = none)
    (hpast : ∀ e, n.about? = some e → e.id < r.nextEntry)
    (hended : ∀ e outcome, n = .ended (.entry e) outcome →
      e.id ∉ out.map Prod.fst ++ r.parked.map Entry.id)
    (hsubmitted : ∀ now fault s e, n = .submitted now fault s → s.tag = .entry e →
      e.key ∈ out ∧ Justified cache log e s) : Kempt cache (log ++ [n]) out r := by
  have hrefreshed : ∀ s, n ≠ .refreshed s := by
    rintro s rfl
    cases hsnapshot
  have hother {id : Nat} (hid : id ∈ out.map Prod.fst ++ r.parked.map Entry.id) :
      ∀ e outcome, n = .ended (.entry e) outcome → e.id ≠ id :=
    fun e outcome hn heq => hended e outcome hn (heq ▸ hid)
  exact
    { refreshes := h.refreshes
      catalog := by
        have hnone : cacheAfter (cacheAfter cache log) [n] = cacheAfter cache log := by
          rw [cacheAfter, List.filterMap_cons_none hsnapshot]
          rfl
        rw [cacheAfter_append, hnone]
        exact h.catalog
      distinct := h.distinct
      below := h.below
      past := by
        intro m hm e he
        rcases List.mem_append.1 hm with hm | hm
        · exact h.past m hm e he
        · exact hpast e (List.mem_singleton.1 hm ▸ he)
      request := by
        intro x hx now fault s e hs htag hid
        rcases List.mem_append.1 hs with hs | hs
        · exact h.request x hx now fault s e hs htag hid
        · obtain ⟨he, -⟩ := hsubmitted now fault s e (List.mem_singleton.1 hs).symm htag
          have hkeys := h.distinct
          rw [← map_fst_keys] at hkeys
          have hsame : e.key = x :=
            List.inj_on_of_nodup_map hkeys (List.mem_append_left _ he) hx hid
          exact congrArg Prod.snd hsame
      fresh := by
        intro x hx
        have hid : x.1 ∈ out.map Prod.fst ++ r.parked.map Entry.id :=
          List.mem_append_left _ (List.mem_map_of_mem hx)
        rw [stale_append_of_ne (hother hid) hrefreshed]
        exact h.fresh x hx
      parked := by
        intro e he
        have hid : e.id ∈ out.map Prod.fst ++ r.parked.map Entry.id :=
          List.mem_append_right _ (List.mem_map_of_mem he)
        exact (h.parked e he).append (hother hid) hrefreshed
      justified := by
        intro before now fault s after e hlog htag
        rcases append_singleton_eq_iff.1 hlog with ⟨rfl, hn, -⟩ | ⟨rest, -, hrest⟩
        · exact (hsubmitted now fault s e hn htag).2
        · exact h.justified before now fault s rest e hrest htag }

theorem Kempt.other (h : Kempt cache log out r) (hsnapshot : n.snapshot? = none)
    (hentry : n.about? = none) : Kempt cache (log ++ [n]) out r := by
  refine h.append hsnapshot ?_ ?_ ?_
  · intro e he
    rw [hentry] at he
    cases he
  · rintro e outcome rfl
    cases hentry
  · rintro now fault s e rfl htag
    rw [Note.about?, htag] at hentry
    cases hentry

theorem Kempt.read {s : Catalog.Snapshot} (h : Kempt cache log out r)
    (hn : n.snapshot? = some s) (hcatalog : q.catalog = (r.install s).catalog)
    (hrefreshes : q.refreshes = r.refreshes) (hnext : q.nextEntry = r.nextEntry)
    (hkeys : q.parked.map Entry.key = r.parked.map Entry.key)
    (hwaits : ∀ e ∈ q.parked, Waits (log ++ [n]) e) : Kempt cache (log ++ [n]) out q := by
  have hids : q.parked.map Entry.id = r.parked.map Entry.id := by
    have hids := congrArg (List.map Prod.fst) hkeys
    rwa [List.map_map, List.map_map] at hids
  have hmem {m : Note κ} (hm : m ∈ log ++ [n]) : m ∈ log ∨ m.snapshot? = some s :=
    (List.mem_append.1 hm).imp_right fun hm =>
      (congrArg Note.snapshot? (List.mem_singleton.1 hm)).trans hn
  exact
    { refreshes := hrefreshes.trans h.refreshes
      catalog := by
        have hone : cacheAfter (cacheAfter cache log) [n] = (cacheAfter cache log).install s := by
          rw [cacheAfter, List.filterMap_cons_some hn]
          rfl
        rw [hcatalog, install, h.catalog, cacheAfter_append, hone]
        rfl
      distinct := hids ▸ h.distinct
      below := by
        rw [hids, hnext]
        exact h.below
      past := by
        intro m hm e he
        rw [hnext]
        rcases hmem hm with hm | hm
        · exact h.past m hm e he
        · cases m <;> cases hm <;> cases he
      request := by
        rw [hkeys]
        intro x hx now fault t e ht
        rcases hmem ht with ht | ht
        · exact h.request x hx now fault t e ht
        · cases ht
      fresh := by
        intro x hx hstale
        rcases stale_append.1 hstale with ⟨e, err, rfl, -⟩ | ⟨hstale, -⟩
        · cases hn
        · exact h.fresh x hx hstale
      parked := hwaits
      justified := by
        intro before now fault t after e hlog
        rcases append_singleton_eq_iff.1 hlog with ⟨-, rfl, -⟩ | ⟨rest, -, hrest⟩
        · cases hn
        · exact h.justified before now fault t rest e hrest }

theorem Kempt.installed (h : Kempt cache log out r) (s : Catalog.Snapshot) :
    Kempt cache (log ++ [.installed s]) out (r.install s) := by
  refine h.read rfl rfl rfl rfl rfl fun e he => (h.parked e he).append ?_ ?_
  · intro x outcome hn
    cases hn
  · intro t hn
    cases hn

theorem preflightDone_ready {s : Staged Request} (h : s.stage = .waiting ∨ s.stage = .ready) :
    s.preflightDone.1.stage = .ready := by
  unfold Staged.preflightDone Staged.advance
  rcases h with h | h
  · rw [if_pos h]
  · rw [h, if_neg Stage.noConfusion]
    exact h

theorem preflightDone_request (s : Staged Request) : s.preflightDone.1.request = s.request := by
  unfold Staged.preflightDone Staged.advance
  split <;> rfl

theorem Kempt.refreshed (h : Kempt cache log out r) (s : Catalog.Snapshot) :
    Kempt cache (log ++ [.refreshed s]) out (r.install s).preflightDone := by
  refine h.read rfl rfl rfl rfl ?_ ?_
  · rw [preflightDone, List.map_map]
    refine List.map_congr_left fun e _ => ?_
    exact congrArg (Prod.mk e.id) (preflightDone_request e.staged)
  · intro e he
    obtain ⟨x, hx, rfl⟩ := List.mem_map.1 he
    have hwaits : Waits log x := h.parked x hx
    have hready := preflightDone_ready hwaits.ready
    obtain ⟨err, hlast, htransient, -⟩ := hwaits.error
    have hlater : LastError (log ++ [.refreshed s]) x.id err := by
      refine hlast.append fun y outcome hn => ?_
      cases hn
    exact
      { stale := by
          refine iff_of_false ?_ (not_stale_refreshed s)
          rw [hready]
          exact Stage.noConfusion
        ready := .inr hready
        error := ⟨err, hlater, htransient, fun _ => hready⟩ }

end TupleClient.Retry
