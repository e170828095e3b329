import Mathlib.Data.List.TakeWhile
import TupleClient.Shell.Session

/-!
Sessions: the shell takes its input line by line, and does for each line what it says and nothing
else, up to the first line that ends the session.
-/
namespace TupleClient.Shell

/-! ### The lines of an input -/

/-- Lines end at line ends; the last one may have none. -/
inductive BreaksInto : (input : Bytes) → (lines : List Bytes) → Prop
  | nil : BreaksInto [] []
  | last {body : Bytes} (hbody : 0x0a ∉ body) (hne : body ≠ []) : BreaksInto body [body]
  | cons {body rest : Bytes} {lines : List Bytes} (hbody : 0x0a ∉ body)
    (h : BreaksInto rest lines) :
    BreaksInto (body ++ 0x0a :: rest) ((body ++ [0x0a]) :: lines)

theorem splitLine_last {body : Bytes} (h : 0x0a ∉ body) : splitLine body = (body, []) := by
  have hbody : ∀ b ∈ body, (b != 0x0a) = true := fun b hb => by
    simpa using ne_of_mem_of_not_mem hb h
  rw [splitLine, List.takeWhile_eq_self_iff.2 hbody, List.dropWhile_eq_nil_iff.2 hbody]
  simp

theorem splitLine_cons {body : Bytes} (h : 0x0a ∉ body) (rest : Bytes) :
    splitLine (body ++ 0x0a :: rest) = (body ++ [0x0a], rest) := by
  have hbody : ∀ b ∈ body, (b != 0x0a) = true := fun b hb => by
    simpa using ne_of_mem_of_not_mem hb h
  rw [splitLine, List.takeWhile_append_of_pos hbody, List.dropWhile_append_of_pos hbody]
  simp

theorem linesOf_nil : linesOf [] = [] := by
  rw [linesOf, splitLine_last List.not_mem_nil]

theorem breaksInto_linesOf (input : Bytes) : BreaksInto input (linesOf input) := by
  fun_induction linesOf input with
  | case1 input rest hsplit =>
    by_cases hmem : 0x0a ∈ input
    · obtain ⟨body, more, rfl, hbody⟩ := List.eq_append_cons_of_mem hmem
      rw [splitLine_cons hbody] at hsplit
      cases body <;> cases hsplit
    · rw [splitLine_last hmem] at hsplit
      cases hsplit
      exact .nil
  | case2 input b line rest hsplit ih =>
    by_cases hmem : 0x0a ∈ input
    · obtain ⟨body, more, rfl, hbody⟩ := List.eq_append_cons_of_mem hmem
      obtain ⟨hline, rfl⟩ := Prod.mk.inj ((splitLine_cons hbody more).symm.trans hsplit)
      rw [← hline]
      exact .cons hbody ih
    · obtain ⟨rfl, rfl⟩ := Prod.mk.inj ((splitLine_last hmem).symm.trans hsplit)
      rw [linesOf_nil]
      exact .last hmem (List.cons_ne_nil b line)

/-! ### A terminal that keeps a record -/

/-- The client as a session sees it: a request has an outcome, and may change what comes after. -/
structure Service (σ : Type) where
  serve : σ → Request → Outcome × σ
  catalog : σ → Catalog.Snapshot

/-- What happens at a terminal. -/
inductive Deed where
  | shown (text : String)
  | complained (text : String)
  | executed (r : Request)

def Deed.request? : Deed → Option Request
  | executed r => some r
  | _ => none

/-- The input that is left, what has happened, and the state of the client. -/
structure Console (σ : Type) where
  input : Bytes
  record : List Deed
  world : σ

variable {σ : Type}

/-- A session that does not end has no result here. -/
def Service.terminal (service : Service σ) : Terminal (StateT (Console σ) Option) where
  line := modifyGet fun c =>
    ((splitLine c.input).1, { c with input := (splitLine c.input).2 })
  put text := modify fun c => { c with record := c.record ++ [.shown text] }
  complain text := modify fun c => { c with record := c.record ++ [.complained text] }
  catalog := return service.catalog (← get).world
  execute r := modifyGet fun c =>
    let (outcome, world) := service.serve c.world r
    (outcome, { c with record := c.record ++ [.executed r], world := world })

variable (service : Service σ)

theorem prompt_run (c : Console σ) :
    (prompt service.terminal).run c =
      some (.ofLine (splitLine c.input).1,
        ⟨(splitLine c.input).2, c.record ++ [.shown promptText], c.world⟩) := rfl

def prompts {m : Type → Type} [Monad m] (t : Terminal m) : Nat → m (List Answer)
  | 0 => return []
  | n + 1 => return (← prompt t) :: (← prompts t n)

/-! ### What a line leads to -/

inductive Handled : σ → (line : Bytes) → List Deed → σ → Prop
  | invalid {w : σ} {line : Bytes} {text : String} {e : CommandError}
    (htext : Bytes.toText? line = some text) (hparse : Command.parse text = .error e) :
    Handled w line [.complained s!"error: {e.message}\n"] w
  | schema {w : σ} {line : Bytes} {text : String}
    (htext : Bytes.toText? line = some text) (hparse : Command.parse text = .ok .schema) :
    Handled w line [.shown ((service.catalog w).render ++ "\n")] w
  | answered {w w' : σ} {line : Bytes} {text : String} {r : Request} {response : Response}
    (htext : Bytes.toText? line = some text) (hparse : Command.parse text = .ok (.request r))
    (hserve : service.serve w r = (.ok response, w')) :
    Handled w line [.executed r, .shown (render response ++ "\n")] w'
  | failed {w w' : σ} {line : Bytes} {text : String} {r : Request} {e : ClientError}
    (htext : Bytes.toText? line = some text) (hparse : Command.parse text = .ok (.request r))
    (hserve : service.serve w r = (.error e, w')) :
    Handled w line [.executed r, .complained s!"error: {e.message}\n"] w'

/-- Line after line, a prompt before each. -/
inductive Worked : σ → (lines : List Bytes) → List Deed → σ → Prop
  | nil (w : σ) : Worked w [] [] w
  | cons {w w₁ w₂ : σ} {line : Bytes} {lines : List Bytes} {deeds more : List Deed}
    (h : Handled service w line deeds w₁) (hrest : Worked w₁ lines more w₂) :
    Worked w (line :: lines) (.shown promptText :: deeds ++ more) w₂

/-- Why a session ends at the first of these lines, or for want of one. -/
inductive Ends : (lines : List Bytes) → Stop → Prop
  | exit {line : Bytes} {later : List Bytes} {text : String}
    (htext : Bytes.toText? line = some text) (hparse : Command.parse text = .ok .exit) :
    Ends (line :: later) .exit
  | notText {line : Bytes} {later : List Bytes} (htext : Bytes.toText? line = none) :
    Ends (line :: later) .notText
  | endOfInput : Ends [] .endOfInput

def requestIn (line : Bytes) : Option Request :=
  match (Bytes.toText? line).map Command.parse with
  | some (.ok (.request r)) => some r
  | _ => none

variable {service}

theorem perform_run {outcome : Outcome} {w' : σ} {r : Request} (c : Console σ) (answer : Deed)
    (hserve : service.serve c.world r = (outcome, w'))
    (hanswer : answer = match outcome with
      | .ok response => .shown (render response ++ "\n")
      | .error e => .complained s!"error: {e.message}\n") :
    ((Act.run r).perform service.terminal).run c =
      some ((), ⟨c.input, c.record ++ [.executed r, answer], w'⟩) := by
  have hexecute : (service.terminal.execute r).run c =
      some (outcome, ⟨c.input, c.record ++ [.executed r], w'⟩) := by
    have hrun : (service.terminal.execute r).run c = some ((service.serve c.world r).1,
      ⟨c.input, c.record ++ [.executed r], (service.serve c.world r).2⟩) := rfl
    rw [hrun, hserve]
  have hrecord : c.record ++ [.executed r, answer] = c.record ++ [.executed r] ++ [answer] := by
    simp
  rw [Act.perform, StateT.run_bind, hexecute, hrecord, hanswer]
  cases outcome <;> rfl

theorem turn_of_stop {line rest input : Bytes} {stop : Stop} (record : List Deed) (w : σ)
    (hsplit : splitLine input = (line, rest)) (h : react (.ofLine line) = .inr stop) :
    (turn service.terminal).run ⟨input, record, w⟩ =
      some (.inr stop, ⟨rest, record ++ [.shown promptText], w⟩) := by
  rw [turn, StateT.run_bind, prompt_run, hsplit]
  simp only [Option.bind_eq_bind, Option.bind_some, h]
  rfl

theorem turn_of_act {line rest input : Bytes} {act : Act} {deeds : List Deed} {w w' : σ}
    (record : List Deed) (hsplit : splitLine input = (line, rest))
    (h : react (.ofLine line) = .inl act)
    (hperform : ∀ record, (act.perform service.terminal).run ⟨rest, record, w⟩ =
      some ((), ⟨rest, record ++ deeds, w'⟩)) :
    (turn service.terminal).run ⟨input, record, w⟩ =
      some (.inl (), ⟨rest, record ++ .shown promptText :: deeds, w'⟩) := by
  have hrecord : record ++ .shown promptText :: deeds =
      record ++ [.shown promptText] ++ deeds := by simp
  rw [turn, StateT.run_bind, prompt_run, hsplit, hrecord]
  simp only [Option.bind_eq_bind, Option.bind_some, h, StateT.run_bind, hperform]
  rfl

theorem turn_cases (service : Service σ) {line rest input : Bytes} (record : List Deed) (w : σ)
    (hsplit : splitLine input = (line, rest)) (hne : line ≠ []) :
    (∃ deeds w', Handled service w line deeds w' ∧
      (turn service.terminal).run ⟨input, record, w⟩ =
        some (.inl (), ⟨rest, record ++ .shown promptText :: deeds, w'⟩)) ∨
    ∃ stop, (∀ later, Ends (line :: later) stop) ∧
      (turn service.terminal).run ⟨input, record, w⟩ =
        some (.inr stop, ⟨rest, record ++ [.shown promptText], w⟩) := by
  have hempty : line.isEmpty = false := by simpa using hne
  cases htext : Bytes.toText? line with
  | none =>
    have hanswer : Answer.ofLine line = .notText := by simp [Answer.ofLine, hempty, htext]
    refine .inr ⟨.notText, fun later => .notText htext, turn_of_stop record w hsplit ?_⟩
    rw [hanswer, react]
  | some text =>
    cases hparse : Command.parse text with
    | error e =>
      have hanswer : Answer.ofLine line = .invalid e := by
        simp [Answer.ofLine, hempty, htext, hparse]
      have hreact : react (.ofLine line) = .inl (.complain e) := by rw [hanswer, react]
      exact .inl ⟨_, w, .invalid htext hparse, turn_of_act record hsplit hreact fun _ => rfl⟩
    | ok command =>
      have hanswer : Answer.ofLine line = .command command := by
        simp [Answer.ofLine, hempty, htext, hparse]
      cases command with
      | exit =>
        refine .inr ⟨.exit, fun later => .exit htext hparse, turn_of_stop record w hsplit ?_⟩
        rw [hanswer, react]
      | schema =>
        have hreact : react (.ofLine line) = .inl .showSchema := by rw [hanswer, react]
        exact .inl ⟨_, w, .schema htext hparse, turn_of_act record hsplit hreact fun _ => rfl⟩
      | request r =>
        have hreact : react (.ofLine line) = .inl (.run r) := by rw [hanswer, react]
        cases hserve : service.serve w r with
        | mk outcome w' =>
          cases outcome with
          | ok response =>
            exact .inl ⟨_, w', .answered htext hparse hserve,
              turn_of_act record hsplit hreact fun _ => perform_run _ _ hserve rfl⟩
          | error e =>
            exact .inl ⟨_, w', .failed htext hparse hserve,
              turn_of_act record hsplit hreact fun _ => perform_run _ _ hserve rfl⟩

/-! ### Runs -/

theorem BreaksInto.splitLine {input : Bytes} {lines : List Bytes} (h : BreaksInto input lines) :
    (lines = [] ∧ splitLine input = ([], [])) ∨
    ∃ line later rest, lines = line :: later ∧ line ≠ [] ∧ splitLine input = (line, rest) ∧
      BreaksInto rest later := by
  cases h with
  | nil => exact .inl ⟨rfl, rfl⟩
  | last hbody hne => exact .inr ⟨_, _, _, rfl, hne, splitLine_last hbody, .nil⟩
  | cons hbody h => exact .inr ⟨_, _, _, rfl, by simp, splitLine_cons hbody _, h⟩

theorem BreaksInto.ne_nil {input : Bytes} {lines : List Bytes} (h : BreaksInto input lines) :
    ∀ line ∈ lines, line ≠ [] := by
  induction h with
  | nil => exact nofun
  | last _ hne => exact List.forall_mem_singleton.2 hne
  | cons _ _ ih => exact List.forall_mem_cons.2 ⟨by simp, ih⟩

theorem BreaksInto.flatten {input : Bytes} {lines : List Bytes} (h : BreaksInto input lines) :
    lines.flatten = input := by
  induction h with
  | nil => rfl
  | last => simp
  | cons _ _ ih => simp [ih]

/-- Prompts give the answers to the lines one by one, and beyond them the end of the input. -/
theorem prompts_run {lines : List Bytes} (n : Nat) (c : Console σ)
    (h : BreaksInto c.input lines) :
    (prompts service.terminal n).run c =
      some ((lines.take n).map Answer.ofLine ++
          List.replicate (n - lines.length) Answer.endOfInput,
        ⟨(lines.drop n).flatten, c.record ++ List.replicate n (.shown promptText), c.world⟩) := by
  induction n generalizing lines c with
  | zero =>
    rw [List.drop_zero, h.flatten, List.replicate_zero, List.append_nil, Nat.zero_sub]
    rfl
  | succ n ih =>
    rw [prompts, StateT.run_bind, prompt_run]
    simp only [Option.bind_eq_bind, Option.bind_some, StateT.run_bind]
    obtain ⟨rfl, hsplit⟩ | ⟨line, later, rest, rfl, -, hsplit, hrest⟩ := h.splitLine
    · rw [hsplit, ih _ .nil]
      simp [List.replicate_succ, Answer.ofLine]
    · rw [hsplit, ih _ hrest]
      simp [List.replicate_succ]

theorem session_eq (c : Console σ) :
    (session service.terminal).run c =
      (turn service.terminal).run c >>= fun
        | (.inl _, c') => (session service.terminal).run c'
        | (.inr stop, c') => some (stop, c') := by
  -- The loop has a least solution where there is a console to run it on.
  have : Nonempty (Console σ) := ⟨c⟩
  refine (congrArg (StateT.run · c) (repeatM_eq_of_monadTail ())).trans ?_
  refine (StateT.run_bind _ _ _).trans (congrArg _ ?_)
  funext x
  obtain ⟨_ | stop, c'⟩ := x <;> rfl

theorem session_run (service : Service σ) {lines : List Bytes} (c : Console σ)
    (h : BreaksInto c.input lines) :
    ∃ done later stop deeds w', lines = done ++ later ∧ Worked service c.world done deeds w' ∧
      Ends later stop ∧ (session service.terminal).run c =
        some (stop, ⟨later.tail.flatten, c.record ++ deeds ++ [.shown promptText], w'⟩) := by
  induction lines generalizing c with
  | nil =>
    obtain ⟨-, hsplit⟩ | ⟨line, later, rest, hlines, -⟩ := h.splitLine
    · refine ⟨[], [], .endOfInput, [], c.world, rfl, .nil _, .endOfInput, ?_⟩
      rw [session_eq, turn_of_stop c.record c.world hsplit rfl, List.append_nil]
      rfl
    · cases hlines
  | cons line later ih =>
    obtain ⟨hnone, -⟩ | ⟨line, later, rest, hlines, hne, hsplit, hrest⟩ := h.splitLine
    · cases hnone
    · cases hlines
      obtain ⟨deeds, w', hhandled, hturn⟩ | ⟨stop, hends, hturn⟩ :=
        turn_cases service c.record c.world hsplit hne
      · obtain ⟨done, later, stop, more, w₂, rfl, hworked, hends, hrun⟩ :=
          ih ⟨rest, c.record ++ .shown promptText :: deeds, w'⟩ hrest
        refine ⟨line :: done, later, stop, _, w₂, rfl, .cons hhandled hworked, hends, ?_⟩
        rw [session_eq, hturn]
        simpa using hrun
      · refine ⟨[], _, stop, [], c.world, rfl, .nil _, hends later, ?_⟩
        rw [session_eq, hturn, List.append_nil, List.tail_cons, hrest.flatten]
        rfl

theorem Handled.executed {w w' : σ} {line : Bytes} {deeds : List Deed}
    (h : Handled service w line deeds w') :
    deeds.filterMap Deed.request? = (requestIn line).toList := by
  cases h <;> simp_all [requestIn, Deed.request?]

theorem Worked.executed {w w' : σ} {lines : List Bytes} {deeds : List Deed}
    (h : Worked service w lines deeds w') :
    deeds.filterMap Deed.request? = lines.filterMap requestIn := by
  induction h with
  | nil => rfl
  | cons h hrest ih =>
    rw [List.filterMap_append, List.filterMap_cons_none rfl, h.executed, ih]
    cases hasked : requestIn _ <;> simp [hasked]

/-- The input is taken line by line. One prompt after another gives what each line says, by itself,
and then the end of the input; each writes its sign and does nothing else. A session works off the
lines up to the first that ends it, or all of them: it runs their requests once each and in order,
gives one answer or one complaint for each, goes on after complaints, and leaves the lines behind
the last one unread. -/
theorem taken_line_by_line (service : Service σ) (w : σ) (input : Bytes) :
    BreaksInto input (linesOf input) ∧
    (∀ line ∈ linesOf input,
      (Bytes.toText? line = none → Answer.ofLine line = .notText) ∧
      ∀ text, Bytes.toText? line = some text →
        (∀ c, Command.parse text = .ok c → Answer.ofLine line = .command c) ∧
        (∀ e, Command.parse text = .error e → Answer.ofLine line = .invalid e)) ∧
    (∀ n record, (prompts service.terminal n).run ⟨input, record, w⟩ =
      some (((linesOf input).take n).map .ofLine ++
          List.replicate (n - (linesOf input).length) .endOfInput,
        ⟨((linesOf input).drop n).flatten, record ++ List.replicate n (.shown promptText), w⟩)) ∧
    ∀ record, ∃ done later stop deeds w', linesOf input = done ++ later ∧
      Worked service w done deeds w' ∧ deeds.filterMap Deed.request? = done.filterMap requestIn ∧
      Ends later stop ∧
      (session service.terminal).run ⟨input, record, w⟩ =
        some (stop, ⟨later.tail.flatten, record ++ deeds ++ [.shown promptText], w'⟩) := by
  have hlines := breaksInto_linesOf input
  refine ⟨hlines, fun line hline => ?_, fun n record => prompts_run n _ hlines, fun record => ?_⟩
  · have hempty : line.isEmpty = false := by simpa using hlines.ne_nil line hline
    simp +contextual [Answer.ofLine, hempty]
  · obtain ⟨done, later, stop, deeds, w', hsplit, hworked, hends, hrun⟩ :=
      session_run service ⟨input, record, w⟩ hlines
    exact ⟨done, later, stop, deeds, w', hsplit, hworked, hworked.executed, hends, hrun⟩

end TupleClient.Shell
