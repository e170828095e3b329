import TupleClient.Proofs.Client.Loading

/-!
What the opening of a client returns. It returns once: with a client that has read its catalog, or
with an error, and then the client is at its end.
-/
namespace TupleClient.Client

open Catalog (Answer Course View)

variable {κ : Type} {limit till : Nat} {c : Client κ} {m : Move κ} {moves : List (Move κ)}

structure Returned (c : Client κ) : Prop where
  opening : c.opening = .done ∨ c.opening = .refused
  tasks : ∀ t ∈ c.tasks, t.purpose ≠ .opening

def Idle (c : Client κ) (t : Turn κ) : Prop := t.client.opening = c.opening ∧ t.returned = []

theorem idle_absorb {d : Client κ} (hd : d.opening = c.opening)
    (step : Retry (Tag κ) × Report (Tag κ)) : Idle c (d.absorb step) :=
  ⟨hd, (wordless_absorb d step).returned⟩

theorem idle_submit {d : Client κ} (hd : d.opening = c.opening) (now : Nat) (request : Request)
    (tag : κ) : Idle c (d.submit now request tag) := by
  unfold submit
  simp only
  split <;> exact idle_absorb hd _

theorem Idle.upkeep {t : Turn κ} (h : Beside c t.client) (hwords : t.Wordless) : Idle c t :=
  ⟨h.opening, hwords.returned⟩

theorem Idle.andThen {t : Turn κ} {f : Client κ → Turn κ} (h : Idle c t)
    (g : Idle t.client (f t.client)) : Idle c (t.andThen f) := by
  refine ⟨g.1.trans h.1, ?_⟩
  have hreturned : (t.andThen f).returned = t.returned ++ (f t.client).returned :=
    List.filterMap_append
  rw [hreturned, h.2, g.2, List.append_nil]

theorem idle_finish {d : Client κ} (hd : d.opening = c.opening) (now : Nat) {purpose : Purpose κ}
    (hpurpose : purpose ≠ .opening) (result : Except ClientError Catalog.Snapshot) :
    Idle c (d.finish now purpose result) := by
  cases purpose with
  | opening => exact absurd rfl hpurpose
  | replay => exact idle_absorb hd _
  | ensure request tag =>
    cases result with
    | error e => exact ⟨hd, rfl⟩
    | ok s =>
      unfold finish
      simp only
      split
      · exact ⟨hd, rfl⟩
      · exact idle_submit (d := d.install s) hd now request tag

theorem Returned.idle_deliver (h : c.Returned) (now : Nat) (tag : Tag κ) (outcome : Outcome) :
    Idle c (c.deliver now tag outcome) := by
  cases tag with
  | user tag => exact ⟨rfl, rfl⟩
  | members =>
    obtain ⟨discovery, addresses, hpolled | hpolled⟩ := polled_cases c now outcome
    · rw [deliver, hpolled]
      exact idle_absorb rfl _
    · rw [deliver, hpolled]
      exact ⟨rfl, rfl⟩
  | read number =>
    simp only [deliver, answered]
    split
    · exact ⟨rfl, rfl⟩
    · rename_i task hfound
      have hpurpose := h.tasks task (List.mem_of_find?_eq_some hfound)
      split
      · exact idle_absorb (by rfl) _
      · exact idle_finish rfl now hpurpose _

theorem Returned.idle (h : c.Returned) (m : Move κ) : Idle c (c.act m) := by
  cases m with
  | event now e =>
    by_cases he : e.IsHeard
    · exact .upkeep (upkeep_heard now he).beside (wordless_heard now he)
    · cases e with
      | clock =>
        have hkept : Idle c (c.keepTime now) :=
          .upkeep (upkeep_keepTime c now).beside (wordless_keepTime c now)
        have hasked (d : Client κ) : Idle d (d.tickDiscovery now) := by
          unfold tickDiscovery
          split
          · split
            · exact idle_absorb rfl _
            · exact ⟨rfl, rfl⟩
          · exact ⟨rfl, rfl⟩
        have hboth : Idle c ((c.keepTime now).andThen (·.tickDiscovery now)) :=
          hkept.andThen (hasked _)
        refine hboth.andThen (f := (·.tickOpening now)) ?_
        unfold tickOpening
        split
        · rename_i till hopening
          rcases h.opening with hdone | hrefused
          · cases hopening.symm.trans (hboth.1.trans hdone)
          · cases hopening.symm.trans (hboth.1.trans hrefused)
        · exact ⟨rfl, rfl⟩
      | execute request tag =>
        simp only [act, step, execute]
        split
        · exact idle_absorb rfl _
        · exact idle_submit rfl now request tag
      | close => exact idle_absorb rfl _
      | _ => exact absurd trivial he
  | proceed now w =>
    cases w with
    | supervisor => exact .upkeep (upkeep_attend c now).beside (wordless_attend c now)
    | opening =>
      rcases h.opening with hopening | hopening <;>
        · simp only [act, proceed, look, hopening]
          exact ⟨rfl, rfl⟩
    | waiter i =>
      simp only [act, proceed, fetch]
      split
      · have hfetched : Returned { c with ended := c.ended.eraseIdx i } := ⟨h.opening, h.tasks⟩
        exact hfetched.idle_deliver now _ _
      · exact ⟨rfl, rfl⟩
    | replay =>
      simp only [act, proceed]
      split
      · unfold beginReplay
        simp only
        split <;> exact idle_absorb (by rfl) _
      · exact ⟨rfl, rfl⟩
    | writer => exact idle_absorb rfl _

theorem Returned.act (h : c.Returned) (hbooked : c.Booked limit) (m : Move κ) :
    (c.act m).client.Returned ∧ (c.act m).returned = [] := by
  obtain ⟨hopening, hreturned⟩ := h.idle m
  refine ⟨⟨by rw [hopening]; exact h.opening, fun t ht => ?_⟩, hreturned⟩
  cases hanswer : c.answer? m with
  | none =>
    cases readings_act hanswer with
    | same htasks hnext => exact h.tasks t (htasks ▸ ht)
    | begun purpose hcalls htasks hnext =>
      rcases List.mem_append.1 (htasks ▸ ht) with hold | hnew
      · exact h.tasks t hold
      · obtain rfl := List.mem_singleton.1 hnew
        rintro rfl
        have hfound : c.opening = .found := hcalls
        rcases h.opening with hdone | hrefused
        · cases hfound.symm.trans hdone
        · cases hfound.symm.trans hrefused
  | some found =>
    obtain ⟨now, i, task, -, -, htask, -, -, -, hact⟩ := hbooked.act_of_answer hanswer
    rw [hact] at ht
    split at ht
    · rcases List.mem_append.1 (show t ∈ (c.withoutTask i found.1).tasks ++ _ from ht) with
        hold | hnew
      · exact h.tasks t (List.mem_filter.1 hold).1
      · rw [List.mem_singleton.1 hnew]
        exact h.tasks task htask
    · rw [(tasks_finish ..).1] at ht
      exact h.tasks t (List.mem_filter.1 ht).1

theorem Returned.returns (h : c.Returned) (hbooked : c.Booked limit) (moves : List (Move κ)) :
    c.returns moves = [] := by
  induction moves generalizing c with
  | nil => rfl
  | cons m moves ih =>
    obtain ⟨hnext, hnothing⟩ := h.act hbooked m
    rw [Client.returns, hnothing, List.nil_append]
    exact ih hnext (hbooked.books_act m).booked

section Run

def InTime (till : Nat) (moves : List (Move κ)) : Prop := ∀ m ∈ moves, m.IsEarly till

/-- A connection was alive before any clock had shown `till`. -/
def CameUp (till : Nat) (c : Client κ) (moves : List (Move κ)) : Prop :=
  ∃ early later, moves = early ++ later ∧ InTime till early ∧ (c.after early).state = .alive

theorem InTime.concat (h : InTime till moves) (hm : m.IsEarly till) : InTime till (moves ++ [m]) :=
  List.forall_mem_append.2 ⟨h, List.forall_mem_singleton.2 hm⟩

theorem CameUp.append (h : CameUp till c moves) (more : List (Move κ)) :
    CameUp till c (moves ++ more) := by
  obtain ⟨early, later, rfl, htime, halive⟩ := h
  exact ⟨early, later ++ more, List.append_assoc .., htime, halive⟩

/-- The opening returns a client at a move. A connection was alive in time, and the catalog was
read, which is in the cache. -/
structure Succeeds (limit till : Nat) (c : Client κ) (before : List (Move κ)) (m : Move κ) :
    Prop where
  effects : ((c.after before).act m).effects = [.opened]
  alive : CameUp till c before
  cached : ∃ s, Course limit limit (c.answers 0 (before ++ [m])) (.ok s) ∧
    Catalog.Agreed (c.answers 0 (before ++ [m])) s ∧
    ((c.after before).act m).client.cache.current = s

/-- Why the opening fails: everything has ended when whoever waits for a connection looks, there is
none when the time is over, or the catalog could not be read. -/
inductive Reason (limit till : Nat) (c : Client κ) (before : List (Move κ)) (m : Move κ) :
    ClientError → Prop where
  | closed {now : Nat} {d : Client κ} {e : ClientError}
      (hopening : (c.after before).opening = .waiting till)
      (hlooks : Looks till (c.after before) m now d) (hstate : d.state = .closed)
      (hterminal : d.retry.pipeline.cell.terminal = some e) : Reason limit till c before m e
  | late {now : Nat} {d : Client κ} (hopening : (c.after before).opening = .waiting till)
      (hlooks : Looks till (c.after before) m now d) (htime : till ≤ now)
      (halive : d.state ≠ .alive) (hopen : d.state ≠ .closed) :
      Reason limit till c before m (.timeout .init)
  | failed {e : ClientError} (hopening : (c.after before).opening = .loading)
      (halive : CameUp till c before)
      (hcourse : Course limit limit (c.answers 0 (before ++ [m])) (.error e)) :
      Reason limit till c before m e

/-- The opening returns an error at a move, and does nothing behind that. Nothing is left of the
client, and no socket is asked for any more. -/
structure Fails (limit till : Nat) (c : Client κ) (before : List (Move κ)) (m : Move κ)
    (e : ClientError) : Prop where
  reason : Reason limit till c before m e
  last : ∃ first, ((c.after before).act m).effects = first ++ [.refused e]
  nothing : ∀ later, (((c.after before).act m).client.after later).Over

/-- The opening has returned, once. -/
inductive Concluded (limit till : Nat) (c : Client κ) (moves : List (Move κ)) : Prop where
  | succeeds {before later : List (Move κ)} {m : Move κ} (hmoves : moves = before ++ m :: later)
      (hbefore : c.returns before = []) (hreturns : c.returns moves = [.ok ()])
      (h : Succeeds limit till c before m)
  | fails {before later : List (Move κ)} {m : Move κ} {e : ClientError}
      (hmoves : moves = before ++ m :: later) (hbefore : c.returns before = [])
      (hreturns : c.returns moves = [.error e]) (h : Fails limit till c before m e)

inductive Progress (limit till : Nat) (c : Client κ) (moves : List (Move κ)) : Prop where
  | waits (h : Unread limit (c.after moves)) (hopening : (c.after moves).opening = .waiting till)
      (htime : InTime till moves) (hasked : c.answers 0 moves = [])
      (hreturns : c.returns moves = [])
  | found (h : Unread limit (c.after moves)) (hopening : (c.after moves).opening = .found)
      (hup : CameUp till c moves) (hasked : c.answers 0 moves = [])
      (hreturns : c.returns moves = [])
  | loads (h : Loading limit (c.answers 0 moves) (c.after moves)) (hup : CameUp till c moves)
      (hreturns : c.returns moves = [])
  | concluded (h : Concluded limit till c moves) (hreturned : (c.after moves).Returned)

theorem after_concat (c : Client κ) (moves : List (Move κ)) (m : Move κ) :
    c.after (moves ++ [m]) = ((c.after moves).act m).client := after_append ..

theorem returns_concat (c : Client κ) (moves : List (Move κ)) (m : Move κ) :
    c.returns (moves ++ [m]) = c.returns moves ++ ((c.after moves).act m).returned := by
  rw [returns_append, Client.returns, Client.returns, List.append_nil]

theorem answers_concat (c : Client κ) (number : Nat) (moves : List (Move κ)) (m : Move κ) :
    c.answers number (moves ++ [m]) = c.answers number moves ++ (c.after moves).heard number m := by
  induction moves generalizing c with
  | nil => simp [answers, after]
  | cons first moves ih =>
    rw [List.cons_append, answers, answers, ih, List.append_assoc]
    rfl

theorem returns_of_wordless (hreturns : c.returns moves = [])
    (h : ((c.after moves).act m).Wordless) :
    c.returns (moves ++ [m]) = [] := by
  rw [returns_concat, hreturns, h.returned, List.append_nil]

theorem Unread.answers (h : Unread limit (c.after moves)) (hasked : c.answers 0 moves = [])
    (m : Move κ) : c.answers 0 (moves ++ [m]) = [] := by
  have hheard : (c.after moves).heard 0 m = [] := by simp [heard, h.answer? m]
  rw [answers_concat, hasked, hheard, List.append_nil]

theorem Refused.concluded {e : ClientError} (h : Refused e ((c.after moves).act m))
    (hisolated : c.retry.pipeline.Isolated) (hreturns : c.returns moves = [])
    (hreason : Reason limit till c moves m e) : Progress limit till c (moves ++ [m]) := by
  have hmoves : moves ++ [m] = moves ++ m :: [] := rfl
  refine .concluded (.fails hmoves hreturns ?_ ⟨hreason, h.last, fun later => ?_⟩) ?_
  · rw [returns_concat, hreturns, h.returned, List.nil_append]
  · rw [← after_concat]
    exact over_after (by rw [after_concat]; exact h.state) (isolated_after hisolated _) later
  · rw [after_concat]
    exact ⟨.inr h.opening, by rw [h.tasks]; exact List.forall_mem_nil _⟩

theorem Concluded.concat (h : Concluded limit till c moves) (hbooked : c.Booked limit)
    (hreturned : (c.after moves).Returned) (m : Move κ) : Progress limit till c (moves ++ [m]) := by
  obtain ⟨hnext, hnothing⟩ := hreturned.act (booked_after hbooked moves) m
  rw [← after_concat] at hnext
  have hsame : c.returns (moves ++ [m]) = c.returns moves := by
    rw [returns_concat, hnothing, List.append_nil]
  have hsplit {before later : List (Move κ)} {last : Move κ}
    (hmoves : moves = before ++ last :: later) :
      moves ++ [m] = before ++ last :: (later ++ [m]) := by
    rw [hmoves, List.append_assoc]
    rfl
  refine .concluded ?_ hnext
  cases h with
  | succeeds hmoves hbefore hreturns h =>
    exact .succeeds (hsplit hmoves) hbefore (hsame.trans hreturns) h
  | fails hmoves hbefore hreturns h => exact .fails (hsplit hmoves) hbefore (hsame.trans hreturns) h

theorem Unread.concat_waiting (h : Unread limit (c.after moves))
    (hopening : (c.after moves).opening = .waiting till) (htime : InTime till moves)
    (hasked : c.answers 0 moves = []) (hreturns : c.returns moves = [])
    (hisolated : c.retry.pipeline.Isolated) (hm : m.IsServed) :
    Progress limit till c (moves ++ [m]) := by
  have hnext := h.answers hasked m
  cases h.outlook hopening (isolated_after hisolated moves) hm with
  | waits hplain hearly =>
    obtain ⟨htends, hwords⟩ := h.alone.tends hplain
    have hreturns' := returns_of_wordless hreturns hwords
    rw [← after_concat] at htends
    exact .waits (htends.unread h) (htends.beside.opening.trans hopening) (htime.concat hearly)
      hnext
      hreturns'
  | found halive hunread hopening' hwords =>
    have hreturns' := returns_of_wordless hreturns hwords
    rw [← after_concat] at hunread hopening'
    exact .found hunread hopening' ⟨moves, [m], rfl, htime, halive⟩ hnext hreturns'
  | closed hlooks hstate hterminal hrefused =>
    exact hrefused.concluded hisolated hreturns (.closed hopening hlooks hstate hterminal)
  | late hlooks halive hopen htime hrefused =>
    exact hrefused.concluded hisolated hreturns (.late hopening hlooks htime halive hopen)

theorem Unread.concat_found (h : Unread limit (c.after moves))
    (hopening : (c.after moves).opening = .found) (hup : CameUp till c moves)
    (hasked : c.answers 0 moves = []) (hreturns : c.returns moves = []) (hpos : 0 < limit)
    (hm : m.IsServed) : Progress limit till c (moves ++ [m]) := by
  have hnext := h.answers hasked m
  rcases h.plain hopening hm with ⟨now, rfl⟩ | hplain
  · obtain ⟨hloading, hwords⟩ := h.loads hpos hopening now
    have hreturns' := returns_of_wordless hreturns hwords
    rw [← after_concat, ← hnext] at hloading
    exact .loads hloading (hup.append _) hreturns'
  · obtain ⟨htends, hwords⟩ := h.alone.tends hplain
    have hreturns' := returns_of_wordless hreturns hwords
    rw [← after_concat] at htends
    exact .found (htends.unread h) (htends.beside.opening.trans hopening) (hup.append _) hnext
      hreturns'

theorem Loading.concat (h : Loading limit (c.answers 0 moves) (c.after moves))
    (hup : CameUp till c moves) (hreturns : c.returns moves = [])
    (hisolated : c.retry.pipeline.Isolated) (hm : m.IsServed) :
    Progress limit till c (moves ++ [m]) := by
  rcases h.act hm with ⟨hloading, hwords⟩ | ⟨now, i, answer, result, rfl, hends⟩
  · have hreturns' := returns_of_wordless hreturns hwords
    rw [← after_concat, ← answers_concat] at hloading
    exact .loads hloading (hup.append _) hreturns'
  · have hcourse := hends.course
    rw [← answers_concat] at hcourse
    rcases h.ends hends with ⟨s, rfl, hopened⟩ | ⟨e, rfl, hrefused⟩
    · have hmoves : moves ++ [.proceed now (.waiter i)] =
          moves ++ .proceed now (.waiter i) :: [] := rfl
      refine .concluded (.succeeds hmoves hreturns ?_
        ⟨hopened.effects, hup, s, hcourse, hcourse.agreed_of_ok, hopened.current⟩) ?_
      · rw [returns_concat, hreturns, Turn.returned, hopened.effects]
        rfl
      · rw [after_concat]
        exact ⟨.inl hopened.opening, by rw [hopened.tasks]; exact List.forall_mem_nil _⟩
    · exact hrefused.concluded hisolated hreturns (.failed h.opening hup hcourse)

/-- The opening goes on with each move. -/
theorem Progress.concat (hpos : 0 < limit) (h : Progress limit till c moves)
    (hbooked : c.Booked limit) (hisolated : c.retry.pipeline.Isolated) (hm : m.IsServed) :
    Progress limit till c (moves ++ [m]) := by
  cases h with
  | waits h hopening htime hasked hreturns =>
    exact h.concat_waiting hopening htime hasked hreturns hisolated hm
  | found h hopening hup hasked hreturns =>
    exact h.concat_found hopening hup hasked hreturns hpos hm
  | loads h hup hreturns => exact h.concat hup hreturns hisolated hm
  | concluded h hreturned => exact h.concat hbooked hreturned m

end Run

end TupleClient.Client
