import TupleClient.Proofs.Client.Bookkeeping

/-!
The readings of the catalog, move by move. A reading that was begun goes on by the answers to its
reads, and nothing else touches it.
-/
namespace TupleClient.Client

open Catalog (Answer Underway Course follows_answered follows_start View)

variable {κ : Type} {limit number : Nat} {c c' : Client κ} {m : Move κ}

/-- What the catalog may be read for at a move. -/
def Calls (c : Client κ) (m : Move κ) : Purpose κ → Prop
  | .opening => c.opening = .found
  | .ensure _ tag => tag ∈ m.executed
  | .replay => c.retry.needsRefresh = true

/-- What a move does to the readings, unless it takes up an answer: nothing, or one is begun. -/
inductive Readings (c : Client κ) (m : Move κ) (c' : Client κ) : Prop where
  | same (htasks : c'.tasks = c.tasks) (hnext : c'.nextTask = c.nextTask)
  | begun (purpose : Purpose κ) (hcalls : c.Calls m purpose)
      (htasks : c'.tasks = c.tasks ++ [⟨c.nextTask, .start c.cache, purpose⟩])
      (hnext : c'.nextTask = c.nextTask + 1)

/-- The answer that a move takes up, and the number of the reading it is for. -/
def answer? (c : Client κ) : Move κ → Option (Nat × Answer)
  | .proceed _ (.waiter i) =>
    match c.ended[i]? with
    | some (.read number, outcome) => some (number, outcome)
    | _ => none
  | _ => none

theorem tasks_submit (c : Client κ) (now : Nat) (request : Request) (tag : κ) :
    (c.submit now request tag).client.tasks = c.tasks ∧
      (c.submit now request tag).client.nextTask = c.nextTask := by
  unfold submit
  simp only
  split <;> exact ⟨rfl, rfl⟩

theorem tasks_finish (c : Client κ) (now : Nat) (purpose : Purpose κ)
    (result : Except ClientError Catalog.Snapshot) :
    (c.finish now purpose result).client.tasks = c.tasks ∧
      (c.finish now purpose result).client.nextTask = c.nextTask := by
  cases purpose with
  | opening =>
    cases result with
    | ok s =>
      obtain ⟨discovery, hpoll⟩ := awaitPoll_eq { c.install s with opening := .done } now
      rw [finish, hpoll]
      exact ⟨rfl, rfl⟩
    | error e => exact ⟨rfl, rfl⟩
  | ensure request tag =>
    cases result with
    | ok s =>
      unfold finish
      simp only
      split
      · exact ⟨rfl, rfl⟩
      · exact tasks_submit (c.install s) now request tag
    | error e => exact ⟨rfl, rfl⟩
  | replay => exact ⟨rfl, rfl⟩

theorem tasks_look {till : Nat} (h : c.opening = .waiting till) (now : Nat) :
    (c.look now).client.tasks = c.tasks ∧ (c.look now).client.nextTask = c.nextTask := by
  simp only [look, h]
  split
  · exact ⟨rfl, rfl⟩
  · exact ⟨rfl, rfl⟩
  · split <;> exact ⟨rfl, rfl⟩

theorem readings_look (c : Client κ) (now : Nat) :
    Readings c (.proceed now .opening) (c.look now).client := by
  cases hopening : c.opening with
  | waiting till =>
    obtain ⟨htasks, hnext⟩ := tasks_look hopening now
    exact .same htasks hnext
  | found =>
    simp only [look, hopening]
    exact .begun .opening hopening rfl rfl
  | _ =>
    simp only [look, hopening]
    exact .same rfl rfl

theorem readings_beginReplay (c : Client κ) (now : Nat) :
    Readings c m (c.beginReplay now).client := by
  unfold beginReplay
  simp only
  split
  · rename_i hneeded
    exact .begun .replay hneeded rfl rfl
  · exact .same rfl rfl

theorem tasks_tickDiscovery (c : Client κ) (now : Nat) :
    (c.tickDiscovery now).client.tasks = c.tasks ∧
      (c.tickDiscovery now).client.nextTask = c.nextTask := by
  unfold tickDiscovery
  split
  · split <;> exact ⟨rfl, rfl⟩
  · exact ⟨rfl, rfl⟩

theorem tasks_tickOpening (c : Client κ) (now : Nat) :
    (c.tickOpening now).client.tasks = c.tasks ∧
      (c.tickOpening now).client.nextTask = c.nextTask := by
  unfold tickOpening
  split
  · rename_i hopening
    split
    · exact tasks_look hopening now
    · exact ⟨rfl, rfl⟩
  · exact ⟨rfl, rfl⟩

theorem readings_step (c : Client κ) (now : Nat) (e : Event κ) :
    Readings c (.event now e) (c.step now e).client := by
  by_cases he : e.IsHeard
  · have hbeside := (upkeep_heard (c := c) now he).beside
    exact .same hbeside.tasks hbeside.nextTask
  · cases e with
    | clock =>
      have hkept := (upkeep_keepTime c now).beside
      have hasked := tasks_tickDiscovery (c.keepTime now).client now
      have hticked := tasks_tickOpening ((c.keepTime now).client.tickDiscovery now).client now
      exact .same (hticked.1.trans (hasked.1.trans hkept.tasks))
        (hticked.2.trans (hasked.2.trans hkept.nextTask))
    | execute request tag =>
      simp only [step, execute]
      split
      · exact .begun (.ensure request tag) (List.mem_singleton.2 rfl) rfl rfl
      · obtain ⟨htasks, hnext⟩ := tasks_submit c now request tag
        exact .same htasks hnext
    | close => exact .same rfl rfl
    | _ => exact absurd trivial he

theorem readings_fetch {now i : Nat} (hnone : c.answer? (.proceed now (.waiter i)) = none) :
    Readings c m (c.fetch now i).client := by
  unfold fetch
  split
  · rename_i tag outcome hended
    cases tag with
    | user tag => exact .same rfl rfl
    | read number => simp [answer?, hended] at hnone
    | members =>
      obtain ⟨discovery, addresses, hpolled | hpolled⟩ :=
        polled_cases { c with ended := c.ended.eraseIdx i } now outcome
      · rw [deliver, hpolled]
        exact .same rfl rfl
      · rw [deliver, hpolled]
        exact .same rfl rfl
  · exact .same rfl rfl

theorem readings_act (hnone : c.answer? m = none) : Readings c m (c.act m).client := by
  cases m with
  | event now e => exact readings_step c now e
  | proceed now w =>
    cases w with
    | supervisor =>
      have hbeside := (upkeep_attend c now).beside
      exact .same hbeside.tasks hbeside.nextTask
    | opening => exact readings_look c now
    | waiter i => exact readings_fetch hnone
    | replay =>
      simp only [act, proceed]
      split
      · exact readings_beginReplay c now
      · exact .same rfl rfl
    | writer => exact .same rfl rfl

theorem act_of_answer {answer : Answer} (h : c.answer? m = some (number, answer)) :
    ∃ now i, m = .proceed now (.waiter i) ∧ c.ended[i]? = some (.read number, answer) ∧
      c.act m = answered { c with ended := c.ended.eraseIdx i } now number answer := by
  unfold answer? at h
  split at h
  · rename_i now i
    split at h
    · rename_i number' answer' hended
      obtain ⟨rfl, rfl⟩ : number' = number ∧ answer' = answer := by simpa using h
      refine ⟨now, i, rfl, hended, ?_⟩
      simp only [act, proceed, fetch, hended]
      rfl
    · cases h
  · cases h

/-- What the reading with a number is told by a move: a part of the catalog, and the answer. -/
def heard (number : Nat) (c : Client κ) (m : Move κ) : List (View × Answer) :=
  match c.answer? m, c.tasks.find? (·.number == number) with
  | some (n, answer), some task => if n = number then [(task.refresh.view, answer)] else []
  | _, _ => []

/-- All that the reading is told by the moves. -/
def answers (number : Nat) (c : Client κ) : List (Move κ) → List (View × Answer)
  | [] => []
  | m :: ms => c.heard number m ++ (c.act m).client.answers number ms

/-- How a reading goes on after an answer: it reads again, or is finished. -/
theorem Booked.act_of_answer (h : c.Booked limit) {answer : Answer}
    (hanswer : c.answer? m = some (number, answer)) :
    ∃ now i task, m = .proceed now (.waiter i) ∧ c.ended[i]? = some (.read number, answer) ∧
      task ∈ c.tasks ∧ task.number = number ∧
      c.tasks.find? (·.number == number) = some task ∧
      (c.withoutTask i number).Booked limit ∧
      c.act m =
        match task.refresh.answered answer with
        | .inl refresh => (c.withoutTask i number).readFor now { task with refresh := refresh }
        | .inr result => (c.withoutTask i number).finish now task.purpose result := by
  obtain ⟨now, i, rfl, hended, hact⟩ := Client.act_of_answer hanswer
  obtain ⟨task, hfound, -, hbooked, hnumber, -⟩ := h.taken hended
  refine ⟨now, i, task, rfl, hended, List.mem_of_find?_eq_some hfound, hnumber, hfound,
    hbooked, ?_⟩
  rw [hact]
  simp only [answered, hfound]
  rfl

/-- A reading that is not told anything stays as it is, and none comes back that has ended. -/
theorem Booked.mem_tasks_act (h : c.Booked limit)
    (hheard : ∀ answer, c.answer? m ≠ some (number, answer))
    {task : Task κ} (hnumber : task.number = number) (hlt : number < c.nextTask) :
    task ∈ (c.act m).client.tasks ↔ task ∈ c.tasks := by
  cases hanswer : c.answer? m with
  | none =>
    cases readings_act hanswer with
    | same htasks hnext => rw [htasks]
    | begun purpose hcalls htasks hnext =>
      have hne : task ≠ ⟨c.nextTask, .start c.cache, purpose⟩ := by
        rintro rfl
        exact Nat.lt_irrefl _ (hnumber ▸ hlt)
      rw [htasks, List.mem_append, List.mem_singleton, or_iff_left hne]
  | some found =>
    obtain ⟨other, answer⟩ := found
    have hother : number ≠ other := by
      rintro rfl
      exact hheard answer hanswer
    obtain ⟨now, i, taken, -, -, -, htaken, -, -, hact⟩ := h.act_of_answer hanswer
    have hkept : task ∈ (c.withoutTask i other).tasks ↔ task ∈ c.tasks := by
      rw [withoutTask, List.mem_filter, and_iff_left]
      simpa [hnumber] using hother
    rw [hact]
    split
    · rename_i refresh _
      have hne : task ≠ { taken with refresh := refresh } := by
        rintro rfl
        exact hother (hnumber.symm.trans htaken)
      have htasks :
          ((c.withoutTask i other).readFor now { taken with refresh := refresh }).client.tasks =
          (c.withoutTask i other).tasks ++ [{ taken with refresh := refresh }] := rfl
      rw [htasks, List.mem_append, List.mem_singleton, or_iff_left hne, hkept]
    · rw [(tasks_finish ..).1, hkept]

theorem Booked.nextTask_le_act (h : c.Booked limit) (m : Move κ) :
    c.nextTask ≤ (c.act m).client.nextTask := by
  cases hanswer : c.answer? m with
  | none =>
    cases readings_act hanswer with
    | same htasks hnext => exact Nat.le_of_eq hnext.symm
    | begun purpose hcalls htasks hnext =>
      rw [hnext]
      exact Nat.le_succ _
  | some found =>
    obtain ⟨now, i, task, -, -, -, -, -, -, hact⟩ := h.act_of_answer hanswer
    rw [hact]
    split
    · exact Nat.le_refl _
    · rw [(tasks_finish ..).2]
      exact Nat.le_refl _

theorem Booked.purposes_act (h : c.Booked limit) {tag : κ} {task : Task κ}
    (htask : task ∈ (c.act m).client.tasks) (htag : task.purpose.tag? = some tag) :
    (∃ old ∈ c.tasks, old.number = task.number ∧ old.purpose = task.purpose) ∨
      tag ∈ m.executed := by
  cases hanswer : c.answer? m with
  | none =>
    cases readings_act hanswer with
    | same htasks hnext => exact .inl ⟨task, htasks ▸ htask, rfl, rfl⟩
    | begun purpose hcalls htasks hnext =>
      rcases List.mem_append.1 (htasks ▸ htask) with hold | hnew
      · exact .inl ⟨task, hold, rfl, rfl⟩
      · obtain rfl := List.mem_singleton.1 hnew
        refine .inr ?_
        cases purpose with
        | ensure request tag' =>
          obtain rfl : tag' = tag := Option.some.inj htag
          exact hcalls
        | _ => cases htag
  | some found =>
    obtain ⟨other, answer⟩ := found
    obtain ⟨now, i, taken, -, -, hmem, -, -, -, hact⟩ := h.act_of_answer hanswer
    refine .inl ?_
    have hkept {t : Task κ} (ht : t ∈ (c.withoutTask i other).tasks) : t ∈ c.tasks :=
      (List.mem_filter.1 ht).1
    rw [hact] at htask
    split at htask
    · rename_i refresh _
      have htasks :
          ((c.withoutTask i other).readFor now { taken with refresh := refresh }).client.tasks =
          (c.withoutTask i other).tasks ++ [{ taken with refresh := refresh }] := rfl
      rcases List.mem_append.1 (htasks ▸ htask) with hold | hnew
      · exact ⟨task, hkept hold, rfl, rfl⟩
      · obtain rfl := List.mem_singleton.1 hnew
        exact ⟨taken, hmem, rfl, rfl⟩
    · exact ⟨task, hkept ((tasks_finish ..).1 ▸ htask), rfl, rfl⟩

/-- The catalog is read for a purpose, and the reading was told these answers. -/
structure Reading (limit number : Nat) (purpose : Purpose κ) (reads : List (View × Answer))
    (c : Client κ) : Prop where
  booked : c.Booked limit
  task : ∃ refresh, ⟨number, refresh, purpose⟩ ∈ c.tasks ∧ refresh.limit = limit ∧
    Underway limit reads refresh.left refresh.spaces

theorem Booked.mem_reads (h : c.Booked limit) :
    .read number ∈ c.places ↔ number ∈ c.tasks.map Task.number := by
  rw [← h.reads.mem_iff, Client.reads, List.mem_filterMap]
  constructor
  · exact fun hplace => ⟨_, hplace, rfl⟩
  · rintro ⟨place, hplace, hnumber⟩
    cases place with
    | read n =>
      obtain rfl : n = number := Option.some.inj hnumber
      exact hplace
    | _ => cases hnumber

theorem Reading.asked {purpose : Purpose κ} {reads : List (View × Answer)}
    (h : Reading limit number purpose reads c) : .read number ∈ c.places := by
  obtain ⟨refresh, htask, -⟩ := h.task
  exact h.booked.mem_reads.2 (List.mem_map_of_mem htask)

structure Ends (limit number : Nat) (purpose : Purpose κ) (reads : List (View × Answer))
    (result : Except ClientError Catalog.Snapshot) (answer : Answer) (i now : Nat)
    (c : Client κ) : Prop where
  ended : c.ended[i]? = some (.read number, answer)
  failed : ∀ e, answer = .error e → result = .error e
  course : Course limit limit reads result
  booked : (c.withoutTask i number).Booked limit
  act : c.act (.proceed now (.waiter i)) = (c.withoutTask i number).finish now purpose result

structure GoesOn (limit number : Nat) (purpose : Purpose κ) (refresh : Catalog.Refresh)
    (i now : Nat) (c : Client κ) : Prop where
  ended : ∃ response, c.ended[i]? = some (.read number, .ok response)
  booked : (c.withoutTask i number).Booked limit
  act : c.act (.proceed now (.waiter i)) =
    (c.withoutTask i number).readFor now ⟨number, refresh, purpose⟩

theorem Reading.told {purpose : Purpose κ} {reads : List (View × Answer)}
    (h : Reading limit number purpose reads c) {answer : Answer}
    (hanswer : c.answer? m = some (number, answer)) :
    ∃ now i, m = .proceed now (.waiter i) ∧
      ((∃ refresh, GoesOn limit number purpose refresh i now c ∧
        Reading limit number purpose (reads ++ c.heard number m) (c.act m).client) ∨
      ∃ result,
        Ends limit number purpose (reads ++ c.heard number m) result answer i now c) := by
  obtain ⟨refresh, htask, hlimit, hunderway⟩ := h.task
  have hbooked := (h.booked.books_act m).booked
  obtain ⟨now, i, task, rfl, hended, hmem, hnumber, hfound, hrest, hact⟩ :=
    h.booked.act_of_answer hanswer
  obtain rfl : task = ⟨number, refresh, purpose⟩ :=
    List.inj_on_of_nodup_map h.booked.numbered hmem htask hnumber
  have hheard : c.heard number (.proceed now (.waiter i)) = [(refresh.view, answer)] := by
    simp only [heard, hanswer, hfound, if_true]
  have hfollows := follows_answered hlimit hunderway answer
  rw [hheard]
  refine ⟨now, i, rfl, ?_⟩
  cases hread : refresh.answered answer with
  | inl next =>
    simp only [hread] at hact hfollows
    have hok : ∃ response, answer = .ok response := by
      cases answer with
      | ok response => exact ⟨response, rfl⟩
      | error e => cases hread
    obtain ⟨response, rfl⟩ := hok
    refine .inl ⟨next, ⟨⟨response, hended⟩, hrest, hact⟩, hbooked, next, ?_, hfollows⟩
    rw [hact]
    exact List.mem_append_right _ (List.mem_singleton.2 rfl)
  | inr result =>
    simp only [hread] at hact hfollows
    refine .inr ⟨result, hended, ?_, hfollows, hrest, hact⟩
    rintro e rfl
    exact (Sum.inr.inj hread).symm

theorem Reading.untold {purpose : Purpose κ} {reads : List (View × Answer)}
    (h : Reading limit number purpose reads c)
    (hnone : ∀ answer, c.answer? m ≠ some (number, answer)) :
    c.heard number m = [] ∧ Reading limit number purpose reads (c.act m).client := by
  obtain ⟨refresh, htask, hfollows⟩ := h.task
  have hlt : number < c.nextTask := h.booked.fresh _ htask
  refine ⟨?_, (h.booked.books_act m).booked, refresh,
    (h.booked.mem_tasks_act hnone rfl hlt).2 htask, hfollows⟩
  unfold heard
  split
  · rename_i n answer task hanswer _
    refine if_neg ?_
    rintro rfl
    exact hnone answer hanswer
  · rfl

theorem Reading.act {purpose : Purpose κ} {reads : List (View × Answer)}
    (h : Reading limit number purpose reads c) (m : Move κ) :
    Reading limit number purpose (reads ++ c.heard number m) (c.act m).client ∨
      ∃ now i answer result, m = .proceed now (.waiter i) ∧
        Ends limit number purpose (reads ++ c.heard number m) result answer i now c := by
  by_cases htold : ∃ answer, c.answer? m = some (number, answer)
  · obtain ⟨answer, hanswer⟩ := htold
    obtain ⟨now, i, hm, ⟨refresh, -, hreading⟩ | ⟨result, hends⟩⟩ := h.told hanswer
    · exact .inl hreading
    · exact .inr ⟨now, i, answer, result, hm, hends⟩
  · obtain ⟨hheard, hreading⟩ := h.untold (not_exists.1 htold)
    rw [hheard, List.append_nil]
    exact .inl hreading

theorem Booked.answers_of_ended (h : c.Booked limit) (hlt : number < c.nextTask)
    (hended : ∀ task ∈ c.tasks, task.number ≠ number) (moves : List (Move κ)) :
    c.answers number moves = [] := by
  induction moves generalizing c with
  | nil => rfl
  | cons m moves ih =>
    have hnone : c.tasks.find? (·.number == number) = none :=
      List.find?_eq_none.2 fun task htask => by simpa using hended task htask
    have hheard : c.heard number m = [] := by
      rw [heard, hnone]
      cases c.answer? m <;> rfl
    have hnot (answer : Answer) : c.answer? m ≠ some (number, answer) := by
      intro hanswer
      obtain ⟨-, -, task, -, -, htask, hnumber, -⟩ := h.act_of_answer hanswer
      exact hended task htask hnumber
    rw [answers, hheard, List.nil_append]
    refine ih (h.books_act m).booked (Nat.lt_of_lt_of_le hlt (h.nextTask_le_act m)) ?_
    intro task htask hnumber
    exact hended task ((h.mem_tasks_act hnot hnumber hlt).1 htask) hnumber

/-- From its beginning on a reading still goes on, or came to its end at one of the moves. -/
theorem Reading.run {purpose : Purpose κ} {reads : List (View × Answer)}
    (h : Reading limit number purpose reads c) (moves : List (Move κ)) :
    Reading limit number purpose (reads ++ c.answers number moves) (c.after moves) ∨
      ∃ before now i later answer result, moves = before ++ .proceed now (.waiter i) :: later ∧
        Reading limit number purpose (reads ++ c.answers number before) (c.after before) ∧
        Ends limit number purpose (reads ++ c.answers number moves) result answer i now
          (c.after before) := by
  induction moves generalizing c reads with
  | nil =>
    rw [answers, List.append_nil]
    exact .inl h
  | cons m moves ih =>
    rw [answers, ← List.append_assoc]
    rcases h.act m with hreading | ⟨now, i, answer, result, rfl, hends⟩
    · refine (ih hreading).imp_right ?_
      rintro ⟨before, now, i, later, answer, result, rfl, hbefore, hends⟩
      refine ⟨m :: before, now, i, later, answer, result, rfl, ?_, hends⟩
      rw [answers, ← List.append_assoc]
      exact hbefore
    · have hbefore : Reading limit number purpose (reads ++ c.answers number []) (c.after []) := by
        rw [answers, List.append_nil]
        exact h
      have hbooked := (h.booked.books_act (.proceed now (.waiter i))).booked
      obtain ⟨refresh, htask, -⟩ := h.task
      have hended : ∀ t ∈ (c.act (.proceed now (.waiter i))).client.tasks, t.number ≠ number := by
        intro t ht
        rw [hends.act, (tasks_finish ..).1] at ht
        simpa using (List.mem_filter.1 ht).2
      rw [hbooked.answers_of_ended
        (Nat.lt_of_lt_of_le (h.booked.fresh _ htask) (h.booked.nextTask_le_act _)) hended moves,
        List.append_nil]
      exact .inr ⟨[], now, i, moves, answer, result, rfl, hbefore, hends⟩

end TupleClient.Client
