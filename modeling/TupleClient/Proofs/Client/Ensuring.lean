import TupleClient.Proofs.Client.Readings

/-!
Requests with names. One whose names are cached is handed on at once. For any other the catalog is
read once, and what comes of its names then decides whether it is handed on or ends.
-/
namespace TupleClient.Client

open Catalog (Answer Cache Course Underway View follows_start)

variable {κ : Type} {limit number : Nat} {c : Client κ} {m : Move κ} {request : Request} {tag : κ}
  {reads : List (View × Answer)}

theorem missing?_eq_none {cache : Cache} {names : List String} :
    cache.missing? names = none ↔ ∀ name ∈ names, cache.current.contains name = true := by
  simp [Cache.missing?]

theorem missing?_eq_some {cache : Cache} {names : List String} {name : String}
    (h : cache.missing? names = some name) :
    cache.current.contains name = false ∧ ∃ known more, names = known ++ name :: more ∧
      ∀ k ∈ known, cache.current.contains k = true := by
  simpa [Cache.missing?, List.find?_eq_some_iff_append] using h

/-- What comes of names, one of which was missing in `first`. A refresh ended with `result` when the
cache was `last`, and left it as `cache`. Only while it was on its way may another have brought the
names, so that it fails and yet they are all there. -/
structure Ensured (names : List String) (first last cache : Cache)
    (result : Except ClientError Catalog.Snapshot) (outcome : Except ClientError Unit) : Prop where
  failed : ∀ e, result = .error e → outcome = .error e ∧ cache = last
  read : ∀ s, result = .ok s → cache = last.install s ∧
    (outcome = .ok () ∨ ∃ known name more, names = known ++ name :: more ∧
      (∀ k ∈ known, cache.current.contains k = true) ∧ cache.current.contains name = false ∧
      outcome = .error (.schema (.spaceNotFound name)))
  ok_iff : (∃ s, result = .ok s) ∨ last = first →
    (outcome = .ok () ↔ ∀ name ∈ names, cache.current.contains name = true)

def Knows (c : Client κ) (request : Request) : Prop :=
  request.isSchemaBound = true →
    ∀ name ∈ request.spaceNames, c.cache.current.contains name = true

/-- The catalog is read for a request, and for it once only. The request has not been handed on. -/
structure Awaits (limit number : Nat) (request : Request) (tag : κ) (reads : List (View × Answer))
    (c : Client κ) : Prop where
  task : ∃ refresh, ⟨number, refresh, .ensure request tag⟩ ∈ c.tasks ∧ refresh.limit = limit ∧
    Underway limit reads refresh.left refresh.spaces
  asked : .read number ∈ c.places
  only : ∀ t ∈ c.tasks, t.purpose.tag? = some tag → t.number = number
  unsent : .user tag ∉ c.places

/-- The turn in which the reading for a request ends, with the outcome in place `i`: the request is
handed on, or it ends with an error and nothing is sent. -/
structure Decided (number : Nat) (request : Request) (tag : κ) (first : Cache)
    (result : Except ClientError Catalog.Snapshot) (outcome : Except ClientError Unit) (i now : Nat)
    (c : Client κ) (t : Turn κ) : Prop where
  ensured : Ensured request.spaceNames first c.cache t.client.cache result outcome
  handedOn : outcome = .ok () → ∃ s, result = .ok s ∧
    t = ((c.withoutTask i number).install s).submit now request tag
  refused : ∀ e, outcome = .error e →
    t.effects = [.finished tag (.error e)] ∧ t.client.retry.pipeline = c.retry.pipeline

theorem catalog_submit (c : Client κ) (now : Nat) (request : Request) (tag : κ) :
    (c.submit now request tag).client.retry.catalog = c.retry.catalog ∧
      (c.submit now request tag).client.settings = c.settings := by
  unfold submit
  simp only
  split
  · exact ⟨Retry.catalog_submit .., rfl⟩
  · exact ⟨Retry.catalog_absorb .., rfl⟩

theorem Booked.cache_install (h : c.Booked limit) (s : Catalog.Snapshot) :
    (c.install s).cache = c.cache.install s := by
  obtain ⟨cache, hcache, -⟩ := h.catalog
  have hinstalled : (c.install s).retry.catalog = some (cache.install s) := by
    rw [Client.install, Retry.install, hcache]
    rfl
  rw [Client.cache, Client.cache, hinstalled, hcache]
  rfl

theorem Booked.attempts (h : c.Booked limit) : c.cache.attempts = limit := by
  obtain ⟨cache, hcache, hattempts⟩ := h.catalog
  rw [Client.cache, hcache]
  exact hattempts

theorem Ensured.of_failed {names : List String} {first cache : Cache} {e : ClientError}
    (hfirst : ¬ ∀ name ∈ names, first.current.contains name = true) :
    Ensured names first cache cache (.error e) (.error e) where
  failed := by
    rintro e ⟨⟩
    exact ⟨rfl, rfl⟩
  read := by rintro s ⟨⟩
  ok_iff := by
    rintro (⟨s, ⟨⟩⟩ | rfl)
    exact ⟨by rintro ⟨⟩, fun hall => absurd hall hfirst⟩

theorem Ensured.of_missing {names : List String} {first last : Cache} {s : Catalog.Snapshot}
    {name : String} (h : (last.install s).missing? names = some name) :
    Ensured names first last (last.install s) (.ok s)
      (.error (.schema (.spaceNotFound name))) := by
  obtain ⟨hname, known, more, rfl, hknown⟩ := missing?_eq_some h
  refine ⟨by rintro e ⟨⟩, ?_, fun _ => ⟨by rintro ⟨⟩, fun hall => ?_⟩⟩
  · rintro s ⟨⟩
    exact ⟨rfl, .inr ⟨known, name, more, rfl, hknown, hname, rfl⟩⟩
  · have hmem : name ∈ known ++ name :: more := by simp
    exact absurd (hall name hmem) (by simp [hname])

theorem Ensured.of_found {names : List String} {first last : Cache} {s : Catalog.Snapshot}
    (h : (last.install s).missing? names = none) :
    Ensured names first last (last.install s) (.ok s) (.ok ()) where
  failed := by rintro e ⟨⟩
  read := by
    rintro s ⟨⟩
    exact ⟨rfl, .inl rfl⟩
  ok_iff _ := ⟨fun _ => missing?_eq_none.1 h, fun _ => rfl⟩

theorem Booked.decided_finish {i : Nat} (h : (c.withoutTask i number).Booked limit) {first : Cache}
    (hfirst : ¬ ∀ name ∈ request.spaceNames, first.current.contains name = true) (now : Nat)
    (result : Except ClientError Catalog.Snapshot) :
    ∃ outcome, Decided number request tag first result outcome i now c
      ((c.withoutTask i number).finish now (.ensure request tag) result) := by
  cases result with
  | error e =>
    refine ⟨.error e, .of_failed hfirst, by rintro ⟨⟩, ?_⟩
    rintro e ⟨⟩
    exact ⟨rfl, rfl⟩
  | ok s =>
    have hinstalled : ((c.withoutTask i number).install s).cache = c.cache.install s :=
      h.cache_install s
    cases hmissing : (c.cache.install s).missing? request.spaceNames with
    | some name =>
      have hturn : (c.withoutTask i number).finish now (.ensure request tag) (.ok s) =
          ⟨(c.withoutTask i number).install s,
            [.finished tag (.error (.schema (.spaceNotFound name)))]⟩ := by
        simp only [finish, hinstalled, hmissing]
      rw [hturn]
      refine ⟨.error (.schema (.spaceNotFound name)), ?_, by rintro ⟨⟩, ?_⟩
      · rw [hinstalled]
        exact .of_missing hmissing
      · rintro e ⟨⟩
        exact ⟨rfl, rfl⟩
    | none =>
      have hturn : (c.withoutTask i number).finish now (.ensure request tag) (.ok s) =
          ((c.withoutTask i number).install s).submit now request tag := by
        simp only [finish, hinstalled, hmissing]
      have hcache : (((c.withoutTask i number).install s).submit now request tag).client.cache =
          c.cache.install s := by
        obtain ⟨hcatalog, hsettings⟩ :=
          catalog_submit ((c.withoutTask i number).install s) now request tag
        rw [← hinstalled, Client.cache, Client.cache, hcatalog, hsettings]
      refine ⟨.ok (), ?_, fun _ => ⟨s, rfl, hturn⟩, by rintro e ⟨⟩⟩
      rw [hturn, hcache]
      exact .of_found hmissing

open Classical in
def Once (tag : κ) (l : List κ) : Prop := l.count tag = 1

theorem Once.of_append {l more : List κ} (h : Once tag (l ++ more)) (hmem : tag ∈ more) :
    tag ∉ l ∧ Once tag more := by
  classical
  have hsum : l.count tag + more.count tag = 1 := List.count_append.symm.trans h
  have hpos : 0 < more.count tag := List.count_pos_iff.2 hmem
  refine ⟨fun htag => ?_, ?_⟩
  · have hpos' : 0 < l.count tag := List.count_pos_iff.2 htag
    omega
  · show more.count tag = 1
    omega

theorem Once.act (h : Once tag c.users) (hbooked : c.Booked limit) (hm : tag ∉ m.executed)
    (hmem : tag ∈ (c.act m).client.users) :
    tag ∉ (c.act m).finished ∧ Once tag (c.act m).client.users := by
  classical
  have hperm := (hbooked.books_act m).users
  have hold : (c.users ++ m.executed).count tag = 1 := by
    rw [List.count_append, List.count_eq_zero.2 hm]
    exact h
  exact Once.of_append (hperm.count_eq tag ▸ hold :) hmem

theorem Booked.not_mem_users_after (h : c.Booked limit) (htag : tag ∉ c.users)
    {moves : List (Move κ)} (hmoves : tag ∉ moves.flatMap Move.executed) :
    tag ∉ (c.after moves).users := by
  induction moves generalizing c with
  | nil => exact htag
  | cons m moves ih =>
    rw [List.flatMap_cons, List.mem_append, not_or] at hmoves
    have hbooks := h.books_act m
    refine ih hbooks.booked (fun hmem => ?_) hmoves.2
    rcases List.mem_append.1 (hbooks.users.subset (List.mem_append_right _ hmem)) with hold | hnew
    · exact htag hold
    · exact hmoves.1 hnew

theorem Once.after (h : Once tag c.users) (hbooked : c.Booked limit) {moves : List (Move κ)}
    (hmoves : tag ∉ moves.flatMap Move.executed) (hmem : tag ∈ (c.after moves).users) :
    Once tag (c.after moves).users := by
  induction moves generalizing c with
  | nil => exact h
  | cons m moves ih =>
    rw [List.flatMap_cons, List.mem_append, not_or] at hmoves
    have hnext := (hbooked.books_act m).booked
    have hkept : tag ∈ (c.act m).client.users := by
      by_contra hgone
      exact hnext.not_mem_users_after hgone hmoves.2 hmem
    exact ih (h.act hbooked hmoves.1 hkept).2 hnext hmoves.2 hmem

theorem Booked.untagged_after (h : c.Booked limit)
    (hfree : ∀ t ∈ c.tasks, t.purpose.tag? ≠ some tag)
    {moves : List (Move κ)} (hmoves : tag ∉ moves.flatMap Move.executed) :
    ∀ t ∈ (c.after moves).tasks, t.purpose.tag? ≠ some tag := by
  induction moves generalizing c with
  | nil => exact hfree
  | cons m moves ih =>
    rw [List.flatMap_cons, List.mem_append, not_or] at hmoves
    refine ih (h.books_act m).booked (fun t ht htag => ?_) hmoves.2
    rcases h.purposes_act ht htag with ⟨old, hold, -, hpurpose⟩ | hnew
    · exact hfree old hold (hpurpose ▸ htag)
    · exact hmoves.1 hnew

structure Waits (limit number : Nat) (request : Request) (tag : κ) (reads : List (View × Answer))
    (c : Client κ) : Prop where
  reading : Reading limit number (.ensure request tag) reads c
  once : Once tag c.users

theorem mem_users_of_task {t : Task κ} (ht : t ∈ c.tasks) (htag : t.purpose.tag? = some tag) :
    tag ∈ c.users :=
  List.mem_append_right _ (List.mem_filterMap.2 ⟨t, ht, htag⟩)

theorem Waits.awaits (h : Waits limit number request tag reads c) :
    Awaits limit number request tag reads c := by
  obtain ⟨refresh, htask, hunderway⟩ := h.reading.task
  have htagged : tag ∈ c.tasks.filterMap (·.purpose.tag?) := List.mem_filterMap.2 ⟨_, htask, rfl⟩
  obtain ⟨hunsent, honce⟩ := h.once.of_append htagged
  refine ⟨⟨refresh, htask, hunderway⟩, h.reading.asked, fun t ht htag => ?_,
    fun hplace => hunsent ?_⟩
  · by_contra hne
    -- Another task for the request would make it two of them.
    obtain ⟨before, after, hsplit⟩ := List.append_of_mem ht
    have hother : ⟨number, refresh, .ensure request tag⟩ ∈ before ++ after := by
      have hmem : (⟨number, refresh, .ensure request tag⟩ : Task κ) ∈ before ++ t :: after :=
        hsplit ▸ htask
      have hnot : (⟨number, refresh, .ensure request tag⟩ : Task κ) ≠ t := by
        rintro rfl
        exact hne rfl
      simpa [hnot] using hmem
    have hperm : c.tasks.Perm ((before ++ after) ++ [t]) := by
      rw [hsplit, List.append_assoc]
      exact (List.perm_append_singleton t after).symm.append_left before
    have htwo : Once tag ((before ++ after).filterMap (·.purpose.tag?) ++ [tag]) := by
      classical
      have hcount := (hperm.filterMap (·.purpose.tag?)).count_eq tag
      rw [List.filterMap_append,
        show [t].filterMap (·.purpose.tag?) = [tag] by simp [htag]] at hcount
      exact hcount.symm.trans honce
    exact (htwo.of_append (List.mem_singleton.2 rfl)).1 (List.mem_filterMap.2 ⟨_, hother, rfl⟩)
  · exact List.mem_filterMap.2 ⟨_, hplace, rfl⟩

/-- From the beginning of the reading on it still goes on, or came to its end at one of the
moves. -/
theorem Waits.run (h : Waits limit number request tag reads c) {moves : List (Move κ)}
    (hmoves : tag ∉ moves.flatMap Move.executed) :
    Waits limit number request tag (reads ++ c.answers number moves) (c.after moves) ∨
      ∃ before now i later answer result, moves = before ++ .proceed now (.waiter i) :: later ∧
        Waits limit number request tag (reads ++ c.answers number before) (c.after before) ∧
        Ends limit number (.ensure request tag) (reads ++ c.answers number moves) result answer i
          now
          (c.after before) := by
  have hwaits {told : List (View × Answer)} {moves : List (Move κ)}
      (hreading : Reading limit number (.ensure request tag) told (c.after moves))
      (hmoves : tag ∉ moves.flatMap Move.executed) :
      Waits limit number request tag told (c.after moves) := by
    obtain ⟨refresh, htask, -⟩ := hreading.task
    exact ⟨hreading, h.once.after h.reading.booked hmoves (mem_users_of_task htask rfl)⟩
  rcases h.reading.run moves with hreading |
    ⟨before, now, i, later, answer, result, rfl, hreading, hends⟩
  · exact .inl (hwaits hreading hmoves)
  · rw [List.flatMap_append, List.mem_append, not_or] at hmoves
    exact .inr ⟨before, now, i, later, answer, result, rfl, hwaits hreading hmoves.1, hends⟩

theorem execute_of_knows (h : c.Knows request) (now : Nat) (tag : κ) :
    c.execute now request tag = c.submit now request tag := by
  refine if_neg fun hread => ?_
  obtain ⟨hbound, hmissing⟩ := Bool.and_eq_true_iff.1 hread
  have hnone := missing?_eq_none.2 (h hbound)
  simp [hnone] at hmissing

theorem execute_of_not_knows (h : ¬ c.Knows request) (now : Nat) (tag : κ) :
    c.execute now request tag = c.startTask now (.ensure request tag) := by
  obtain ⟨hbound, hmissing⟩ := Classical.not_imp.1 h
  refine if_pos (Bool.and_eq_true_iff.2 ⟨hbound, ?_⟩)
  rw [← missing?_eq_none] at hmissing
  exact Option.isSome_iff_ne_none.2 hmissing

theorem Booked.waits_execute (h : c.Booked limit) (hpos : 0 < limit) (htag : tag ∉ c.users)
    (hknows : ¬ c.Knows request) (now : Nat) :
    Waits limit c.nextTask request tag [] (c.execute now request tag).client := by
  have hbooks := h.books_execute now request tag
  rw [execute_of_not_knows hknows] at hbooks ⊢
  have htask : ⟨c.nextTask, .start c.cache, .ensure request tag⟩ ∈
      (c.startTask now (.ensure request tag)).client.tasks :=
    List.mem_append_right _ (List.mem_singleton.2 rfl)
  refine ⟨⟨hbooks.booked, _, htask, follows_start hpos h.attempts⟩, ?_⟩
  classical
  have hone : (c.users ++ [tag]).count tag = 1 := by
    rw [List.count_append, List.count_eq_zero.2 htag]
    simp
  exact (Once.of_append (hbooks.users.count_eq tag ▸ hone :) (mem_users_of_task htask rfl)).2

/-- What becomes of a request is decided at one of the moves, and nothing is decided again. -/
theorem Waits.decided (h : Waits limit number request tag [] c) {first : Cache}
    (hfirst : ¬ ∀ name ∈ request.spaceNames, first.current.contains name = true)
    {moves : List (Move κ)} (hmoves : tag ∉ moves.flatMap Move.executed) :
    (c.after moves).Awaits limit number request tag (c.answers number moves) ∨
      ∃ before now i later result outcome, moves = before ++ .proceed now (.waiter i) :: later ∧
        (c.after before).Awaits limit number request tag (c.answers number before) ∧
        Course limit limit (c.answers number moves) result ∧
        (c.after before).Decided number request tag first result outcome i now
          ((c.after before).act (.proceed now (.waiter i))) ∧
        (∀ e, outcome = .error e → tag ∉ (c.after moves).users) ∧
        ∀ t ∈ (c.after moves).tasks, t.purpose.tag? ≠ some tag := by
  rcases h.run hmoves with hwaits | ⟨before, now, i, later, answer, result, rfl, hbefore, hends⟩
  · exact .inl hwaits.awaits
  · obtain ⟨outcome, hdecided⟩ := hends.booked.decided_finish hfirst now result
    rw [← hends.act] at hdecided
    rw [List.flatMap_append, List.flatMap_cons, List.mem_append, List.mem_append, not_or,
      not_or] at hmoves
    obtain ⟨-, hnow, hlater⟩ := hmoves
    have hbooks := hbefore.reading.booked.books_act (.proceed now (.waiter i))
    have hafter : c.after (before ++ .proceed now (.waiter i) :: later) =
        ((c.after before).act (.proceed now (.waiter i))).client.after later := after_append ..
    refine .inr ⟨before, now, i, later, result, outcome, rfl, hbefore.awaits, hends.course,
      hdecided,
      fun e he => ?_, ?_⟩
    · rw [hafter]
      refine hbooks.booked.not_mem_users_after (fun hmem => ?_) hlater
      have hfinished : tag ∈ ((c.after before).act (.proceed now (.waiter i))).finished := by
        rw [Turn.finished, (hdecided.refused e he).1]
        exact List.mem_singleton.2 rfl
      exact (hbefore.once.act hbefore.reading.booked hnow hmem).1 hfinished
    · rw [hafter]
      refine hbooks.booked.untagged_after (fun t ht htag => ?_) hlater
      rw [hends.act, (tasks_finish ..).1] at ht
      obtain ⟨hmem, hnumber⟩ := List.mem_filter.1 ht
      simp [hbefore.awaits.only t hmem htag] at hnumber

/-- A request is executed after any run, and any moves follow. If all its names are cached it is
handed on at once, and the catalog is not read for it. Otherwise the catalog is read, once, and
until that is done the request is nowhere but with the reading. Then it is handed on if all its
names are there, and ends with the error of the reading or for the first name that is missing if
not, without ever having been handed on. -/
theorem ensures (s : Settings) (start now : Nat) (before after : List (Move κ)) (request : Request)
    (tag : κ) (hbefore : tag ∉ before.flatMap Move.executed)
    (hafter : tag ∉ after.flatMap Move.executed) :
    let limit := max s.refreshAttempts 1
    let c := (Client.start (create s start)).client.after before
    let turn := c.act (.event now (.execute request tag))
    let reads := turn.client.answers c.nextTask after
    let last := turn.client.after after
    (c.Knows request → turn = c.submit now request tag ∧ turn.client.tasks = c.tasks ∧
      turn.client.nextTask = c.nextTask ∧ ∀ t ∈ last.tasks, t.purpose.tag? ≠ some tag) ∧
    (¬ c.Knows request →
      last.Awaits limit c.nextTask request tag reads ∨
      ∃ waited time i rest result outcome, after = waited ++ .proceed time (.waiter i) :: rest ∧
        (turn.client.after waited).Awaits limit c.nextTask request tag
          (turn.client.answers c.nextTask waited) ∧
        Course limit limit reads result ∧
        (turn.client.after waited).Decided c.nextTask request tag c.cache result outcome i time
          ((turn.client.after waited).act (.proceed time (.waiter i))) ∧
        (∀ e, outcome = .error e → tag ∉ last.users) ∧
        ∀ t ∈ last.tasks, t.purpose.tag? ≠ some tag) := by
  intro limit c turn reads last
  have hbooked : c.Booked limit := booked_after (booked_start s start) before
  have hfree : tag ∉ c.users :=
    (booked_start s start).not_mem_users_after (users_start s start ▸ List.not_mem_nil) hbefore
  refine ⟨fun hknows => ?_, fun hknows => ?_⟩
  · have hturn : turn = c.submit now request tag := execute_of_knows hknows now tag
    obtain ⟨htasks, hnext⟩ := hturn ▸ tasks_submit c now request tag
    refine ⟨hturn, htasks, hnext, ?_⟩
    refine (hbooked.books_act _).booked.untagged_after (fun t ht htag => ?_) hafter
    exact hfree (mem_users_of_task (htasks ▸ ht) htag)
  · have hpos : 0 < limit := Nat.lt_of_lt_of_le Nat.one_pos (Nat.le_max_right ..)
    exact (hbooked.waits_execute hpos hfree hknows now).decided
      (Classical.not_imp.1 hknows).2 hafter

def naming : Request := .select (.named "a") (.id 0) [] 0 1 .all

def unfound : List (Move Unit) :=
  settling 10 [] ++ settling 10 [.received (noRows 3) none] ++
    settling 10 [.received (noRows 4) none]

theorem ensures_of_unfound :
    let c := (start (create Settings.standard 0)).client.after greeted
    let turn := c.act (.event 10 (.execute naming ()))
    () ∉ (greeted : List (Move Unit)).flatMap Move.executed ∧
      () ∉ unfound.flatMap Move.executed ∧ ¬ c.Knows naming ∧
      ∃ waited time i rest result outcome, unfound = waited ++ .proceed time (.waiter i) :: rest ∧
        (turn.client.after waited).Decided c.nextTask naming () c.cache result outcome i time
          ((turn.client.after waited).act (.proceed time (.waiter i))) := by
  have hbefore : () ∉ (greeted : List (Move Unit)).flatMap Move.executed := by decide
  have hafter : () ∉ unfound.flatMap Move.executed := by decide
  have hmissing : (((start (create Settings.standard 0)).client.after
      (greeted : List (Move Unit))).cache.current.contains "a") = false := by decide +kernel
  have hknows : ¬ ((start (create Settings.standard 0)).client.after
      (greeted : List (Move Unit))).Knows naming := by
    intro hall
    have hcached := hall (by decide) "a" (by decide)
    rw [hmissing] at hcached
    cases hcached
  have hread : (((((start (create Settings.standard 0)).client.after greeted).act
      (.event 10 (.execute naming ()))).client.after unfound).tasks.isEmpty) = true := by
    decide +kernel
  refine ⟨hbefore, hafter, hknows, ?_⟩
  rcases (ensures Settings.standard 0 10 greeted unfound naming () hbefore hafter).2 hknows with
    hawaits | ⟨waited, time, i, rest, result, outcome, hmoves, -, -, hdecided, -⟩
  · obtain ⟨refresh, htask, -⟩ := hawaits.task
    rw [List.isEmpty_iff.1 hread] at htask
    cases htask
  · exact ⟨waited, time, i, rest, result, outcome, hmoves, hdecided⟩

end TupleClient.Client
