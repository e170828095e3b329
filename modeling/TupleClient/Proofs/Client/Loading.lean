import TupleClient.Proofs.Client.Connecting
import TupleClient.Proofs.Client.Ensuring

/-!
The first reading of the catalog. It starts when a connection was found, and with its end the
opening has come to its own.
-/
namespace TupleClient.Client

open Catalog (Answer View follows_start)

variable {κ : Type} {limit : Nat} {c : Client κ} {m : Move κ} {reads : List (View × Answer)}

structure Loading (limit : Nat) (reads : List (View × Answer)) (c : Client κ) : Prop where
  alone : Alone limit c
  opening : c.opening = .loading
  reading : Reading limit 0 .opening reads c
  only : ∀ t ∈ c.tasks, t.number = 0
  dated : c.Dated

theorem plain_of_found (hopening : c.opening = .found ∨ c.opening = .loading) (hm : m.IsServed)
    (hanswer : c.answer? m = none)
    (hlook : ∀ now, m = .proceed now .opening → c.look now = c.quiet) : Plain c m := by
  refine ⟨hm, hanswer, hlook, fun now _ => ?_⟩
  have hsame := (upkeep_keepTime c now).beside.opening
  rcases hopening with hopening | hopening <;>
    · rw [hopening] at hsame
      simp only [tickOpening, hsame]

theorem Unread.plain (h : Unread limit c) (hopening : c.opening = .found) (hm : m.IsServed) :
    (∃ now, m = .proceed now .opening) ∨ Plain c m := by
  by_cases hturn : ∃ now, m = .proceed now .opening
  · exact .inl hturn
  · exact .inr (plain_of_found (.inl hopening) hm (h.answer? m)
      fun now hnow => absurd ⟨now, hnow⟩ hturn)

theorem Alone.readFor (h : Alone limit c) (now : Nat) (t : Task κ)
    (hnumber : t.number ∉ c.tasks.map Task.number) (hfresh : t.number < c.nextTask) :
    Alone limit (c.readFor now t).client where
  booked := (h.booked.books_readFor now t hnumber hfresh).booked
  bare := by
    have hbare := h.bare.absorb h.booked (.plain now none t.refresh.view.request
      c.settings.operationTimeout (.read t.number)) (List.forall_mem_singleton.2 ⟨_, rfl⟩)
    exact ⟨hbare.held, hbare.ended⟩
  catalog := (Retry.catalog_absorb ..).trans h.catalog
  discovery := h.discovery

theorem Unread.loads (hpos : 0 < limit) (h : Unread limit c) (hopening : c.opening = .found)
    (now : Nat) :
    Loading limit [] (c.act (.proceed now .opening)).client ∧
      (c.act (.proceed now .opening)).Wordless := by
  let d : Client κ := { c with opening := .loading, nextTask := c.nextTask + 1 }
  have hact : c.act (.proceed now .opening) =
      d.readFor now ⟨c.nextTask, .start c.cache, .opening⟩ := by
    simp only [act, proceed, look, hopening]
    rfl
  have hbooked := h.alone.booked
  have halone : Alone limit d :=
    ⟨{ hbooked with fresh := fun t ht => Nat.lt_succ_of_lt (hbooked.fresh t ht) },
      ⟨h.alone.bare.held, h.alone.bare.ended⟩, h.alone.catalog, h.alone.discovery⟩
  have hread := halone.readFor now ⟨c.nextTask, .start c.cache, .opening⟩
    (by rw [show d.tasks = [] from h.tasks]; exact List.not_mem_nil) (Nat.lt_succ_self _)
  have htasks : (d.readFor now ⟨c.nextTask, .start c.cache, .opening⟩).client.tasks =
      [⟨0, .start c.cache, .opening⟩] := by
    show c.tasks ++ [⟨c.nextTask, .start c.cache, .opening⟩] = _
    rw [h.tasks, h.nextTask]
    rfl
  have hdated : d.Dated := ⟨h.dated.timed, h.dated.dated⟩
  rw [hact]
  refine ⟨⟨hread, rfl, ⟨hread.booked, .start c.cache, ?_, ?_⟩, ?_, hdated.readFor now _⟩,
    wordless_absorb _ _⟩
  · rw [htasks]
    exact List.mem_singleton.2 rfl
  · exact follows_start hpos hbooked.attempts
  · rw [htasks]
    exact List.forall_mem_singleton.2 rfl

theorem Loading.isPlain (h : Loading limit reads c) (hm : m.IsServed)
    (hanswer : c.answer? m = none) : Plain c m :=
  plain_of_found (.inr h.opening) hm hanswer fun now _ => by simp only [look, h.opening]

theorem Loading.plain (h : Loading limit reads c) (hm : m.IsServed)
    (hanswer : c.answer? m = none) :
    Loading limit reads (c.act m).client ∧ (c.act m).Wordless ∧ c.heard 0 m = [] := by
  obtain ⟨htends, hwords⟩ := h.alone.tends (h.isPlain hm hanswer)
  obtain ⟨hheard, hreading⟩ := h.reading.untold (m := m) (by simp [hanswer])
  refine ⟨⟨htends.alone h.alone, htends.beside.opening.trans h.opening, hreading, ?_,
    htends.dated h.dated⟩, hwords, hheard⟩
  rw [htends.beside.tasks]
  exact h.only

theorem Loading.withoutTask (h : Loading limit reads c) (i : Nat) :
    (c.withoutTask i 0).tasks = [] :=
  List.filter_eq_nil_iff.2 fun t ht => by simp [h.only t ht]

theorem Loading.goesOn (h : Loading limit reads c) {refresh : Catalog.Refresh} {i now : Nat}
    (hgoes : GoesOn limit 0 .opening refresh i now c) {more : List (View × Answer)}
    (hreading : Reading limit 0 .opening more (c.act (.proceed now (.waiter i))).client) :
    Loading limit more (c.act (.proceed now (.waiter i))).client ∧
      (c.act (.proceed now (.waiter i))).Wordless := by
  have hrest : Alone limit (c.withoutTask i 0) :=
    ⟨hgoes.booked, ⟨h.alone.bare.held, fun x hx =>
      h.alone.bare.ended x (List.mem_of_mem_eraseIdx hx)⟩, h.alone.catalog, h.alone.discovery⟩
  obtain ⟨_, htask, -⟩ := h.reading.task
  have hfresh : 0 < c.nextTask := h.alone.booked.fresh _ htask
  have hdated : (c.withoutTask i 0).Dated := ⟨h.dated.timed, h.dated.dated⟩
  have hnone : 0 ∉ (c.withoutTask i 0).tasks.map Task.number := by
    rw [h.withoutTask]
    exact List.not_mem_nil
  rw [hgoes.act] at hreading ⊢
  refine ⟨⟨hrest.readFor now _ hnone hfresh, h.opening, hreading, ?_, hdated.readFor now _⟩,
    wordless_absorb _ _⟩
  have htasks : ((c.withoutTask i 0).readFor now ⟨0, refresh, .opening⟩).client.tasks =
      (c.withoutTask i 0).tasks ++ [⟨0, refresh, .opening⟩] := rfl
  rw [htasks, h.withoutTask]
  exact List.forall_mem_singleton.2 rfl

theorem Loading.act (h : Loading limit reads c) (hm : m.IsServed) :
    (Loading limit (reads ++ c.heard 0 m) (c.act m).client ∧ (c.act m).Wordless) ∨
    ∃ now i answer result, m = .proceed now (.waiter i) ∧
      Ends limit 0 .opening (reads ++ c.heard 0 m) result answer i now c := by
  cases hanswer : c.answer? m with
  | none =>
    obtain ⟨hloading, hwords, hheard⟩ := h.plain hm hanswer
    rw [hheard, List.append_nil]
    exact .inl ⟨hloading, hwords⟩
  | some found =>
    obtain ⟨n, answer⟩ := found
    obtain ⟨-, -, task, -, -, htask, hnumber, -⟩ := h.alone.booked.act_of_answer hanswer
    obtain rfl : n = 0 := hnumber.symm.trans (h.only task htask)
    obtain ⟨now, i, rfl, ⟨refresh, hgoes, hreading⟩ | ⟨result, hends⟩⟩ := h.reading.told hanswer
    · exact .inl (h.goesOn hgoes hreading)
    · exact .inr ⟨now, i, answer, result, rfl, hends⟩

structure Opened (s : Catalog.Snapshot) (t : Turn κ) : Prop where
  effects : t.effects = [.opened]
  opening : t.client.opening = .done
  tasks : t.client.tasks = []
  current : t.client.cache.current = s

theorem Loading.opened (h : Loading limit reads c) {i : Nat}
    (hbooked : (c.withoutTask i 0).Booked limit) (now : Nat) (s : Catalog.Snapshot) :
    Opened s ((c.withoutTask i 0).finish now .opening (.ok s)) := by
  obtain ⟨discovery, hpoll⟩ :=
    awaitPoll_eq { (c.withoutTask i 0).install s with opening := .done } now
  have hcurrent : ((c.withoutTask i 0).install s).cache.current = s := by
    have hempty : (c.withoutTask i 0).cache = ⟨limit, .empty⟩ := by
      rw [cache, show (c.withoutTask i 0).retry.catalog = _ from h.alone.catalog]
      rfl
    rw [hbooked.cache_install, hempty, Catalog.Cache.install,
      if_pos (show Catalog.Snapshot.empty.version ≤ s.version from Nat.zero_le _)]
  rw [finish, hpoll]
  exact ⟨rfl, rfl, h.withoutTask i, hcurrent⟩

theorem Loading.ends (h : Loading limit reads c) {told : List (View × Answer)}
    {result : Except ClientError Catalog.Snapshot} {answer : Answer} {i now : Nat}
    (hends : Ends limit 0 .opening told result answer i now c) :
    (∃ s, result = .ok s ∧ Opened s (c.act (.proceed now (.waiter i)))) ∨
      ∃ e, result = .error e ∧ Refused e (c.act (.proceed now (.waiter i))) := by
  rw [hends.act]
  cases result with
  | ok s => exact .inl ⟨s, rfl, h.opened hends.booked now s⟩
  | error e => exact .inr ⟨e, rfl, refused_refuse (h.withoutTask i) _ e⟩

end TupleClient.Client
