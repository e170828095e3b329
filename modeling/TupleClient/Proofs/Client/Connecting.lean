import TupleClient.Proofs.Client.Opening

/-!
The opening of a client, until there is a connection to read its catalog over. Whoever opens the
client looks at the state that there is then: a connection that came up and is gone does not count.
-/
namespace TupleClient.Client

variable {κ : Type} {limit till now : Nat} {c c' d : Client κ} {t : Turn κ} {m : Move κ}
  {e : ClientError}

def Effect.returned? : Effect κ → Option (Except ClientError Unit)
  | .opened => some (.ok ())
  | .refused e => some (.error e)
  | _ => none

/-- What the opening returns in a turn. -/
def Turn.returned (t : Turn κ) : List (Except ClientError Unit) :=
  t.effects.filterMap Effect.returned?

def returns (c : Client κ) : List (Move κ) → List (Except ClientError Unit)
  | [] => []
  | m :: ms => (c.act m).returned ++ (c.act m).client.returns ms

theorem returns_append (c : Client κ) (moves more : List (Move κ)) :
    c.returns (moves ++ more) = c.returns moves ++ (c.after moves).returns more := by
  induction moves generalizing c with
  | nil => rfl
  | cons m moves ih =>
    rw [List.cons_append, returns, returns, ih, List.append_assoc]
    rfl

theorem Turn.Wordless.returned (h : t.Wordless) : t.returned = [] := by
  refine List.filterMap_eq_nil_iff.2 fun e he => ?_
  cases e with
  | opened => exact absurd trivial (h _ he)
  | refused e => exact absurd trivial (h _ he)
  | _ => rfl

theorem quiet_andThen (c : Client κ) (f : Client κ → Turn κ) : c.quiet.andThen f = f c := by
  simp [quiet, Turn.andThen]

/-- The opening is refused in a turn, with which the client is closed. That is the last of it. -/
structure Refused (e : ClientError) (t : Turn κ) : Prop where
  returned : t.returned = [.error e]
  last : ∃ before, t.effects = before ++ [.refused e]
  state : t.client.state = .closed
  opening : t.client.opening = .refused
  tasks : t.client.tasks = []

theorem Refused.andThen {f : Client κ → Turn κ} (hwords : t.Wordless)
    (h : Refused e (f t.client)) : Refused e (t.andThen f) where
  returned := by
    have hreturned : (t.andThen f).returned = t.returned ++ (f t.client).returned :=
      List.filterMap_append
    rw [hreturned, hwords.returned, h.returned, List.nil_append]
  last := by
    obtain ⟨before, heffects⟩ := h.last
    refine ⟨t.effects ++ before, ?_⟩
    rw [Turn.andThen, heffects, List.append_assoc]
  state := h.state
  opening := h.opening
  tasks := h.tasks

theorem refused_refuse (htasks : c.tasks = []) (reason e : ClientError) :
    Refused e (c.refuse reason e) := by
  let d : Client κ := { c with discovery := { c.discovery with next := none } }
  have hlast : Refused e (⟨{ (d.signal (.closed reason)).client with opening := .refused },
      [.refused e]⟩ : Turn κ) :=
    ⟨rfl, ⟨[], rfl⟩, state_closed d reason, rfl, htasks⟩
  exact Refused.andThen (t := d.signal (.closed reason))
    (f := fun c => ⟨{ c with opening := .refused }, [.refused e]⟩) (wordless_signal d _) hlast

structure Unread (limit : Nat) (c : Client κ) : Prop where
  alone : Alone limit c
  tasks : c.tasks = []
  nextTask : c.nextTask = 0
  dated : c.Dated

theorem Tends.unread (h : Tends c c') (hc : Unread limit c) : Unread limit c' where
  alone := h.alone hc.alone
  tasks := h.beside.tasks.trans hc.tasks
  nextTask := h.beside.nextTask.trans hc.nextTask
  dated := h.dated hc.dated

theorem Unread.answer? (h : Unread limit c) (m : Move κ) : c.answer? m = none := by
  cases hanswer : c.answer? m with
  | none => rfl
  | some found =>
    obtain ⟨-, -, task, -, -, htask, -⟩ := h.alone.booked.act_of_answer hanswer
    rw [h.tasks] at htask
    cases htask

def Move.IsEarly (till : Nat) (m : Move κ) : Prop := ∀ now, m = .event now .clock → now < till

/-- Whoever opens the client looks at it at a move, when that is their turn or the time is over. -/
inductive Looks (till : Nat) (c : Client κ) : Move κ → Nat → Client κ → Prop where
  | turn (now : Nat) : Looks till c (.proceed now .opening) now c
  | woken {now : Nat} (h : till ≤ now) :
      Looks till c (.event now .clock) now (c.keepTime now).client

theorem Looks.upkeep (h : Looks till c m now d) : Upkeep c d := by
  cases h with
  | turn now => exact .rest c
  | woken h => exact upkeep_keepTime c now

theorem Looks.state (h : Looks till c m now d) (halive : d.state = .alive) : c.state = .alive := by
  cases h with
  | turn now => exact halive
  | woken h => exact state_of_keepTime halive

theorem Looks.act (h : Looks till c m now d) (halone : Alone limit c)
    (hopening : c.opening = .waiting till) :
    ∃ t : Turn κ, t.client = d ∧ t.Wordless ∧ c.act m = t.andThen (·.look now) := by
  cases h with
  | turn now => exact ⟨c.quiet, rfl, wordless_quiet c, (quiet_andThen c (·.look now)).symm⟩
  | woken htime =>
    refine ⟨c.keepTime now, rfl, wordless_keepTime c now, ?_⟩
    have hwaiting : (c.keepTime now).client.opening = .waiting till :=
      (upkeep_keepTime c now).beside.opening.trans hopening
    have hlook : (c.keepTime now).client.tickOpening now = (c.keepTime now).client.look now := by
      simp only [tickOpening, hwaiting, if_pos htime]
    rw [Client.act, step, halone.tick, Turn.andThen, hlook]
    rfl

inductive Sight (till now : Nat) (c : Client κ) : Prop where
  | alive (hstate : c.state = .alive) (hlook : c.look now = quiet { c with opening := .found })
  | closed {e : ClientError} (hstate : c.state = .closed)
      (hterminal : c.retry.pipeline.cell.terminal = some e) (hlook : Refused e (c.look now))
  | late (halive : c.state ≠ .alive) (hopen : c.state ≠ .closed) (htime : till ≤ now)
      (hlook : Refused (.timeout .init) (c.look now))
  | nothing (htime : now < till) (hlook : c.look now = c.quiet)

theorem sight (hopening : c.opening = .waiting till) (htasks : c.tasks = [])
    (hisolated : c.retry.pipeline.Isolated) (now : Nat) : Sight till now c := by
  by_cases halive : c.state = .alive
  · refine .alive halive ?_
    simp only [look, hopening, halive]
  by_cases hclosed : c.state = .closed
  · obtain ⟨e, hterminal⟩ : ∃ e, c.retry.pipeline.cell.terminal = some e :=
      Option.ne_none_iff_exists'.1 fun hnone => halive (hisolated.usable.1 hnone)
    refine .closed hclosed hterminal ?_
    have hlook : c.look now = c.refuse (.connection (.closed "client dropped")) e := by
      simp only [look, hopening, hclosed, hterminal]
      rfl
    exact hlook ▸ refused_refuse htasks _ e
  have hlook : c.look now =
      if till ≤ now then c.refuse (.timeout .init) (.timeout .init) else c.quiet := by
    simp only [look, hopening]
  by_cases htime : till ≤ now
  · rw [if_pos htime] at hlook
    exact .late halive hclosed htime (hlook ▸ refused_refuse htasks _ _)
  · rw [if_neg htime] at hlook
    exact .nothing (Nat.not_le.1 htime) hlook

inductive Outlook (limit till : Nat) (c : Client κ) (m : Move κ) : Prop where
  | waits (hm : Plain c m) (hearly : m.IsEarly till)
  | found (halive : c.state = .alive) (hunread : Unread limit (c.act m).client)
      (hopening : (c.act m).client.opening = .found) (hwords : (c.act m).Wordless)
  | closed {now : Nat} {d : Client κ} {e : ClientError} (hlooks : Looks till c m now d)
      (hstate : d.state = .closed) (hterminal : d.retry.pipeline.cell.terminal = some e)
      (h : Refused e (c.act m))
  | late {now : Nat} {d : Client κ} (hlooks : Looks till c m now d) (halive : d.state ≠ .alive)
      (hopen : d.state ≠ .closed) (htime : till ≤ now) (h : Refused (.timeout .init) (c.act m))

theorem Looks.outlook (hlooks : Looks till c m now d) (h : Unread limit c)
    (hopening : c.opening = .waiting till) (hisolated : c.retry.pipeline.Isolated) :
    Outlook limit till c m := by
  have hupkeep := hlooks.upkeep
  have hd : Unread limit d := Tends.unread (.kept hupkeep) h
  obtain ⟨t, hclient, hwords, hact⟩ := hlooks.act h.alone hopening
  have hsight := sight (hupkeep.beside.opening.trans hopening) hd.tasks
    (hupkeep.keeps (fun _ x hp => Pipeline.isolated_step hp x) hisolated) now
  have hrefused {e : ClientError} (hlook : Refused e (d.look now)) : Refused e (c.act m) := by
    rw [hact]
    exact Refused.andThen (f := (·.look now)) hwords (hclient ▸ hlook)
  cases hsight with
  | alive hstate hlook =>
    have hturn : c.act m = t.andThen fun _ => quiet { d with opening := .found } := by
      rw [hact, Turn.andThen, Turn.andThen, hclient, hlook]
    refine .found (hlooks.state hstate) ?_ ?_ ?_
    · rw [hturn]
      exact ⟨⟨{ hd.alone.booked with }, ⟨hd.alone.bare.held, hd.alone.bare.ended⟩,
        hd.alone.catalog, hd.alone.discovery⟩, hd.tasks, hd.nextTask,
        ⟨hd.dated.timed, hd.dated.dated⟩⟩
    · rw [hturn]
      rfl
    · rw [hturn]
      exact hwords.andThen (wordless_quiet _)
  | closed hstate hterminal hlook => exact .closed hlooks hstate hterminal (hrefused hlook)
  | late halive hopen htime hlook => exact .late hlooks halive hopen htime (hrefused hlook)
  | nothing htime hlook =>
    cases hlooks with
    | turn now =>
      refine .waits ⟨trivial, h.answer? _, fun now' hnow => ?_, by simp⟩ (by simp [Move.IsEarly])
      obtain ⟨rfl, -⟩ := Move.proceed.inj hnow
      exact hlook
    | woken hover => exact absurd hover (Nat.not_le.2 htime)

theorem Unread.outlook (h : Unread limit c) (hopening : c.opening = .waiting till)
    (hisolated : c.retry.pipeline.Isolated) (hm : m.IsServed) : Outlook limit till c m := by
  by_cases hseen : ∃ now d, Looks till c m now d
  · obtain ⟨now, d, hlooks⟩ := hseen
    exact hlooks.outlook h hopening hisolated
  · have hearly : m.IsEarly till := by
      rintro now rfl
      exact Nat.not_le.1 fun hover => hseen ⟨now, _, .woken hover⟩
    refine .waits ⟨hm, h.answer? m, ?_, ?_⟩ hearly
    · rintro now rfl
      exact absurd ⟨now, c, .turn now⟩ hseen
    · intro now hclock
      have hwaiting : (c.keepTime now).client.opening = .waiting till :=
        (upkeep_keepTime c now).beside.opening.trans hopening
      simp only [tickOpening, hwaiting, if_neg (Nat.not_le.2 (hearly now hclock))]

end TupleClient.Client
