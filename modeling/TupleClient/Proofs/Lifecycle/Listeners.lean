import Mathlib.Data.List.Destutter
import TupleClient.Proofs.Lifecycle.Generations

/-!
What one operation on a cell can do, and what its listeners hear of a run of them: the states from
their coming on, each one once. The last part is on runs that look for a connection in the one way
in which it is done: there the error is gone exactly while both loops of one connection run.
-/
namespace TupleClient.Lifecycle

theorem State.canBecome_self (s : State) : s.canBecome s = false := by cases s <;> rfl

theorem State.canBecome_closed {s : State} (h : s ≠ .closed) : s.canBecome .closed = true := by
  cases s <;> first | rfl | exact absurd rfl h

theorem State.closed_canBecome (s : State) : State.closed.canBecome s = false := by cases s <;> rfl

theorem State.canBecome_of_afterStart {s t : State} {loop : Loop} (h : s.afterStart loop = some t) :
    s.canBecome t = true := by
  cases s <;> cases loop <;> cases h <;> rfl

inductive Act where
  | operate (op : Op)
  | subscribe

namespace Cell

/-- Whether an operation counts: its answer, which for `begin` is a number or none. -/
def accepts (c : Cell) : Op → Bool
  | .transition source target => (c.transition source target).2
  | .begin => c.begin.2.isSome
  | .loopStarted generation loop => (c.loopStarted generation loop).2
  | .fail generation e => (c.fail generation e).2
  | .close reason => (c.close reason).2

def act (c : Cell) : Act → Cell
  | .operate op => c.apply op
  | .subscribe => c.subscribe

def acts (c : Cell) : List Act → Cell
  | [] => c
  | a :: as => (c.act a).acts as

/-- The state before each act, and the last one. -/
def trace (c : Cell) : List Act → List State
  | [] => [c.state]
  | a :: as => c.state :: (c.act a).trace as

/-- From `c` to `d` the state went along an edge, and every listener was told where to. -/
structure Moved (c d : Cell) : Prop where
  edge : c.state.canBecome d.state = true
  told : d.heard = c.heard.map (· ++ [d.state])
  generation : d.generation = c.generation

theorem acts_append (c : Cell) (as more : List Act) :
    c.acts (as ++ more) = (c.acts as).acts more := by
  induction as generalizing c with
  | nil => rfl
  | cons a as ih => exact ih (c.act a)

theorem moved_enter {c : Cell} {s : State} (h : c.state.canBecome s = true)
    (terminal : Option ClientError) : Moved c (c.enter s terminal) :=
  ⟨h, rfl, rfl⟩

def MovesOrNot (c : Cell) (r : Cell × Bool) : Prop := r = (c, false) ∨ r.2 = true ∧ Moved c r.1

theorem movesOrNot_transition (c : Cell) (source target : State) :
    c.MovesOrNot (c.transition source target) := by
  unfold transition
  split
  · rename_i h
    exact .inr ⟨rfl, moved_enter (h.1 ▸ h.2) _⟩
  · exact .inl rfl

theorem movesOrNot_loopStarted (c : Cell) (generation : Nat) (loop : Loop) :
    c.MovesOrNot (c.loopStarted generation loop) := by
  unfold loopStarted
  split
  · split
    · rename_i h
      exact .inr ⟨rfl, moved_enter (State.canBecome_of_afterStart h) _⟩
    · exact .inl rfl
  · exact .inl rfl

theorem movesOrNot_fail (c : Cell) (generation : Nat) (e : ClientError) :
    c.MovesOrNot (c.fail generation e) := by
  unfold fail
  split
  · rename_i h
    exact .inr ⟨rfl, moved_enter h.2.1 _⟩
  · exact .inl rfl

theorem movesOrNot_close (c : Cell) (reason : ClientError) : c.MovesOrNot (c.close reason) := by
  unfold close
  split
  · exact .inl rfl
  · rename_i h
    exact .inr ⟨rfl, moved_enter (State.canBecome_closed h) _⟩

theorem begin_cases (c : Cell) :
    c.begin = (c, none) ∨ c.state = .connecting ∧
      c.begin = ({ c with generation := c.generation + 1 }, some (c.generation + 1)) := by
  unfold begin
  split
  · rename_i h
    exact .inr ⟨h, rfl⟩
  · exact .inl rfl

theorem apply_cases (c : Cell) (op : Op) :
    (c.accepts op = false ∧ c.apply op = c) ∨
      (op = .begin ∧
        c.begin = ({ c with generation := c.generation + 1 }, some (c.generation + 1))) ∨
      (c.accepts op = true ∧ op ≠ .begin ∧ Moved c (c.apply op)) := by
  have hmoves {r : Cell × Bool} (h : c.MovesOrNot r) (hop : op ≠ .begin) :
      (r.2 = false ∧ r.1 = c) ∨ (r.2 = true ∧ op ≠ .begin ∧ Moved c r.1) := by
    rcases h with rfl | ⟨haccepts, hmoved⟩
    · exact .inl ⟨rfl, rfl⟩
    · exact .inr ⟨haccepts, hop, hmoved⟩
  cases op with
  | transition source target =>
    exact (hmoves (c.movesOrNot_transition ..) Op.noConfusion).imp_right .inr
  | «begin» =>
    rcases c.begin_cases with hrefused | ⟨-, hbegin⟩
    · exact .inl ⟨by rw [accepts, hrefused]; rfl, by rw [apply, hrefused]⟩
    · exact .inr (.inl ⟨rfl, hbegin⟩)
  | loopStarted generation loop =>
    exact (hmoves (c.movesOrNot_loopStarted ..) Op.noConfusion).imp_right .inr
  | fail generation e => exact (hmoves (c.movesOrNot_fail ..) Op.noConfusion).imp_right .inr
  | close reason => exact (hmoves (c.movesOrNot_close ..) Op.noConfusion).imp_right .inr

theorem Moved.state_ne {c d : Cell} (h : Moved c d) : d.state ≠ c.state := by
  intro heq
  have hedge := h.edge
  rw [heq, State.canBecome_self] at hedge
  cases hedge

theorem heard_act (c : Cell) (a : Act) {i : Nat} {states : List State}
    (h : c.heard[i]? = some states) :
    ((c.act a).state = c.state ∧ (c.act a).heard[i]? = some states) ∨
      ((c.act a).state ≠ c.state ∧ (c.act a).heard[i]? = some (states ++ [(c.act a).state])) := by
  cases a with
  | subscribe =>
    obtain ⟨hi, -⟩ := List.getElem?_eq_some_iff.1 h
    refine .inl ⟨rfl, ?_⟩
    rw [act, subscribe, List.getElem?_append_left hi, h]
  | operate op =>
    simp only [act]
    rcases c.apply_cases op with ⟨-, hsame⟩ | ⟨rfl, hbegin⟩ | ⟨-, -, hmoved⟩
    · rw [hsame]
      exact .inl ⟨rfl, h⟩
    · rw [apply, hbegin]
      exact .inl ⟨rfl, h⟩
    · refine .inr ⟨hmoved.state_ne, ?_⟩
      rw [hmoved.told, List.getElem?_map, h, Option.map_some]

theorem trace_eq_cons (c : Cell) (as : List Act) : ∃ states, c.trace as = c.state :: states := by
  cases as with
  | nil => exact ⟨[], rfl⟩
  | cons a as => exact ⟨_, rfl⟩

theorem destutter_trace_cons (c : Cell) (a : Act) (as : List Act) :
    (c.trace (a :: as)).destutter (· ≠ ·) =
      if (c.act a).state = c.state then ((c.act a).trace as).destutter (· ≠ ·)
      else c.state :: ((c.act a).trace as).destutter (· ≠ ·) := by
  obtain ⟨states, hstates⟩ := (c.act a).trace_eq_cons as
  rw [trace, hstates, List.destutter_cons_cons]
  split
  · rename_i hne
    rw [if_neg (Ne.symm hne)]
    rfl
  · rename_i heq
    rw [not_not] at heq
    rw [if_pos heq.symm, heq]
    rfl

theorem heard_acts (c : Cell) (as : List Act) {i : Nat} {before : List State}
    (h : c.heard[i]? = some before) :
    ∃ states, (c.acts as).heard[i]? = some (before ++ states) ∧
      (c.trace as).destutter (· ≠ ·) = c.state :: states := by
  induction as generalizing c before with
  | nil => exact ⟨[], by rw [List.append_nil]; exact h, rfl⟩
  | cons a as ih =>
    rw [destutter_trace_cons]
    rcases c.heard_act a h with ⟨hsame, hheard⟩ | ⟨hne, hheard⟩
    · obtain ⟨states, hstates, htrace⟩ := ih (c.act a) hheard
      refine ⟨states, hstates, ?_⟩
      rw [if_pos hsame, htrace, hsame]
    · obtain ⟨states, hstates, htrace⟩ := ih (c.act a) hheard
      refine ⟨(c.act a).state :: states, ?_, ?_⟩
      · rw [acts, hstates, List.append_assoc]
        rfl
      · rw [if_neg hne, htrace]

theorem apply_of_closed {c : Cell} (h : c.state = .closed) (op : Op) : c.apply op = c := by
  rcases c.apply_cases op with ⟨-, hsame⟩ | ⟨rfl, hbegin⟩ | ⟨-, -, hmoved⟩
  · exact hsame
  · rw [begin, h, if_neg State.noConfusion] at hbegin
    cases congrArg Prod.snd hbegin
  · have hedge := hmoved.edge
    rw [h, State.closed_canBecome] at hedge
    cases hedge

theorem acts_of_closed {c : Cell} (h : c.state = .closed) (as : List Act) :
    (c.acts as).state = .closed ∧ (c.acts as).generation = c.generation ∧
      (c.acts as).terminal = c.terminal := by
  induction as generalizing c with
  | nil => exact ⟨h, rfl, rfl⟩
  | cons a as ih =>
    cases a with
    | subscribe => exact ih (c := c.subscribe) h
    | operate op =>
      rw [acts, act, apply_of_closed h]
      exact ih h

/-- The one way in which a connection is looked for. -/
def Conducted (as : List Act) : Prop :=
  ∀ source target, .operate (.transition source target) ∈ as →
    source = .uninitialized ∧ target = .reconnecting ∨
      source = .reconnecting ∧ target = .connecting

/-- The reports that count since `connecting` was last entered, of which there were `before`. -/
def reportsAfter (c : Cell) (before : List (Nat × Loop)) : Act → List (Nat × Loop)
  | .operate (.transition source target) =>
    if (c.transition source target).2 ∧ target = .connecting then [] else before
  | .operate (.loopStarted generation loop) =>
    if (c.loopStarted generation loop).2 then before ++ [(generation, loop)] else before
  | .operate .begin => before
  | .operate (.fail _ _) => before
  | .operate (.close _) => before
  | .subscribe => before

def reports (c : Cell) (before : List (Nat × Loop)) : List Act → List (Nat × Loop)
  | [] => before
  | a :: as => (c.act a).reports (c.reportsAfter before a) as

def Reported (c : Cell) (rs : List (Nat × Loop)) : Prop :=
  match c.state with
  | .connecting => rs = []
  | .reading => rs = [(c.generation, .reader)]
  | .writing => rs = [(c.generation, .writer)]
  | .alive => rs.Perm [(c.generation, .reader), (c.generation, .writer)]
  | _ => True

structure Sound (c : Cell) (rs : List (Nat × Loop)) : Prop where
  terminal : c.terminal = none ↔ c.state = .alive
  reported : c.Reported rs

theorem reportsAfter_of_refused {c : Cell} {op : Op} (h : c.accepts op = false)
    (rs : List (Nat × Loop)) : c.reportsAfter rs (.operate op) = rs := by
  cases op with
  | transition source target => exact if_neg fun hmoved => by rw [accepts, hmoved.1] at h; cases h
  | loopStarted generation loop => exact if_neg fun hmoved => by rw [accepts, hmoved] at h; cases h
  | _ => rfl

theorem Sound.terminal_ne_none {c : Cell} {rs : List (Nat × Loop)} (h : Sound c rs)
    (hs : c.state ≠ .alive) : c.terminal ≠ none :=
  fun hnone => hs (h.terminal.1 hnone)

/-- The first report leads half way, and the other one to where operations meet no error. -/
theorem sound_started {c : Cell} {rs : List (Nat × Loop)} (h : Sound c rs) {loop : Loop} {s : State}
    (hs : c.state.afterStart loop = some s) :
    Sound (c.enter s (if s.isAlive then none else c.terminal)) (rs ++ [(c.generation, loop)]) := by
  have hreported := h.reported
  rw [Reported] at hreported
  cases hstate : c.state with
  | connecting =>
    rw [hstate] at hs hreported
    have hterminal := h.terminal_ne_none (by rw [hstate]; exact State.noConfusion)
    have hrs : rs = [] := hreported
    rw [hrs]
    cases loop <;> cases hs <;>
      exact ⟨⟨fun hnone => absurd hnone hterminal, State.noConfusion⟩, rfl⟩
  | reading =>
    rw [hstate] at hs hreported
    have hrs : rs = [(c.generation, .reader)] := hreported
    rw [hrs]
    cases loop <;> cases hs
    exact ⟨⟨fun _ => rfl, fun _ => rfl⟩, .refl _⟩
  | writing =>
    rw [hstate] at hs hreported
    have hrs : rs = [(c.generation, .writer)] := hreported
    rw [hrs]
    cases loop <;> cases hs
    exact ⟨⟨fun _ => rfl, fun _ => rfl⟩, .swap _ _ []⟩
  | _ =>
    rw [hstate] at hs
    cases loop <;> cases hs

theorem sound_of_refused {c : Cell} {rs : List (Nat × Loop)} (h : Sound c rs) {op : Op}
    (hrefused : c.accepts op = false) (hsame : c.apply op = c) :
    Sound (c.act (.operate op)) (c.reportsAfter rs (.operate op)) := by
  rw [reportsAfter_of_refused hrefused, act, hsame]
  exact h

theorem sound_transition {c : Cell} {rs : List (Nat × Loop)} (h : Sound c rs)
    {source target : State}
    (hway : source = .uninitialized ∧ target = .reconnecting ∨
      source = .reconnecting ∧ target = .connecting) :
    Sound (c.act (.operate (.transition source target)))
      (c.reportsAfter rs (.operate (.transition source target))) := by
  by_cases hedge : c.state = source ∧ source.canBecome target
  · have hmove : c.transition source target = (c.enter target c.terminal, true) := by
      rw [transition, if_pos hedge]
    have hterminal : c.terminal ≠ none := by
      apply h.terminal_ne_none
      rw [hedge.1]
      rcases hway with ⟨rfl, -⟩ | ⟨rfl, -⟩ <;> exact State.noConfusion
    rw [reportsAfter, act, apply, hmove]
    rcases hway with ⟨-, rfl⟩ | ⟨-, rfl⟩
    · exact ⟨⟨fun hnone => absurd hnone hterminal, State.noConfusion⟩, trivial⟩
    · exact ⟨⟨fun hnone => absurd hnone hterminal, State.noConfusion⟩, rfl⟩
  · have hrefused : c.transition source target = (c, false) := by rw [transition, if_neg hedge]
    exact sound_of_refused h (by rw [accepts, hrefused]) (by rw [apply, hrefused])

theorem sound_begin {c : Cell} {rs : List (Nat × Loop)} (h : Sound c rs) :
    Sound (c.act (.operate .begin)) (c.reportsAfter rs (.operate .begin)) := by
  rcases c.begin_cases with hrefused | ⟨hstate, hbegin⟩
  · exact sound_of_refused h (by rw [accepts, hrefused]; rfl) (by rw [apply, hrefused])
  · have hreported := h.reported
    rw [Reported, hstate] at hreported
    rw [act, apply, hbegin]
    refine ⟨h.terminal, ?_⟩
    rw [Reported, hstate]
    exact hreported

theorem sound_loopStarted {c : Cell} {rs : List (Nat × Loop)} (h : Sound c rs) (generation : Nat)
    (loop : Loop) :
    Sound (c.act (.operate (.loopStarted generation loop)))
      (c.reportsAfter rs (.operate (.loopStarted generation loop))) := by
  by_cases hg : c.generation = generation
  · subst hg
    cases hs : c.state.afterStart loop with
    | none =>
      have hrefused : c.loopStarted c.generation loop = (c, false) := by
        rw [loopStarted, if_pos rfl, hs]
      exact sound_of_refused h (by rw [accepts, hrefused]) (by rw [apply, hrefused])
    | some s =>
      have hstarted : c.loopStarted c.generation loop =
          (c.enter s (if s.isAlive then none else c.terminal), true) := by
        rw [loopStarted, if_pos rfl, hs]
      rw [reportsAfter, act, apply, hstarted]
      exact sound_started h hs
  · have hrefused : c.loopStarted generation loop = (c, false) := by rw [loopStarted, if_neg hg]
    exact sound_of_refused h (by rw [accepts, hrefused]) (by rw [apply, hrefused])

theorem sound_act {c : Cell} {rs : List (Nat × Loop)} (h : Sound c rs) {a : Act} {as : List Act}
    (has : Conducted (a :: as)) : Sound (c.act a) (c.reportsAfter rs a) := by
  cases a with
  | subscribe => exact ⟨h.terminal, h.reported⟩
  | operate op =>
    cases op with
    | transition source target =>
      exact sound_transition h (has source target List.mem_cons_self)
    | «begin» => exact sound_begin h
    | loopStarted generation loop => exact sound_loopStarted h generation loop
    | fail generation e =>
      rcases c.movesOrNot_fail generation e with hrefused | ⟨hfail, -⟩
      · exact sound_of_refused h (by rw [accepts, hrefused]) (by rw [apply, hrefused])
      · rw [act, apply, (fail_eq_enter hfail).2]
        exact ⟨⟨fun hnone => absurd hnone (Option.some_ne_none _), State.noConfusion⟩, trivial⟩
    | close reason =>
      by_cases hclosed : c.state = .closed
      · have hrefused : c.close reason = (c, false) := by rw [close, if_pos hclosed]
        exact sound_of_refused h (by rw [accepts, hrefused]) (by rw [apply, hrefused])
      · have hmove : c.close reason = (c.enter .closed (some reason), true) := by
          rw [close, if_neg hclosed]
        rw [act, apply, hmove]
        exact ⟨⟨fun hnone => absurd hnone (Option.some_ne_none _), State.noConfusion⟩, trivial⟩

theorem Conducted.tail {a : Act} {as : List Act} (h : Conducted (a :: as)) : Conducted as :=
  fun source target hmem => h source target (List.mem_cons_of_mem a hmem)

theorem sound_acts {c : Cell} {rs : List (Nat × Loop)} (h : Sound c rs) {as : List Act}
    (has : Conducted as) : Sound (c.acts as) (c.reports rs as) := by
  induction as generalizing c rs with
  | nil => exact h
  | cons a as ih => exact ih (sound_act h has) has.tail

theorem sound_initial : Sound initial [] :=
  ⟨⟨fun hnone => absurd hnone (Option.some_ne_none _), State.noConfusion⟩, trivial⟩

/-- In every run, what an operation answers says what it did: nothing, or one number more, or a step
along an edge of which every listener is told. So a listener hears the states that are gone through,
and of a closed cell nothing. If a connection is looked for in the one way, operations meet no error
exactly while the connection is alive, which takes a report of each of its loops. -/
theorem answers_and_listeners (as : List Act) :
    let c := initial.acts as
    (∀ op, c.accepts op = false → c.apply op = c) ∧
      (∀ generation, c.begin.2 = some generation →
        generation = c.generation + 1 ∧ c.begin.1 = { c with generation := generation }) ∧
      (∀ op, op ≠ .begin → c.accepts op = true → Moved c (c.apply op)) ∧
      (∀ before after, as = before ++ .subscribe :: after →
        ∃ states, c.heard[(initial.acts before).heard.length]? = some states ∧
          ((initial.acts before).trace (.subscribe :: after)).destutter (· ≠ ·) =
            (initial.acts before).state :: states) ∧
      (∀ reason, (c.close reason).2 = true → ∀ more,
        ((c.close reason).1.acts more).state = .closed ∧
          ((c.close reason).1.acts more).generation = c.generation ∧
            ((c.close reason).1.acts more).terminal = some reason) ∧
      (Conducted as → (c.terminal = none ↔ c.state = .alive) ∧
        (c.state = .alive → (initial.reports [] as).Perm
          [(c.generation, .reader), (c.generation, .writer)])) := by
  intro c
  refine ⟨fun op hrefused => ?_, fun generation hbegin => ?_, fun op hop haccepts => ?_,
    fun before after has => ?_, fun reason hclose more => ?_, fun has => ?_⟩
  · rcases c.apply_cases op with ⟨-, hsame⟩ | ⟨rfl, hbegin⟩ | ⟨haccepts, -⟩
    · exact hsame
    · rw [accepts, hbegin] at hrefused
      cases hrefused
    · rw [hrefused] at haccepts
      cases haccepts
  · rcases c.begin_cases with hrefused | ⟨-, hgiven⟩
    · rw [hrefused] at hbegin
      cases hbegin
    · rw [hgiven] at hbegin ⊢
      cases hbegin
      exact ⟨rfl, rfl⟩
  · rcases c.apply_cases op with ⟨hrefused, -⟩ | ⟨rfl, -⟩ | ⟨-, -, hmoved⟩
    · rw [haccepts] at hrefused
      cases hrefused
    · exact absurd rfl hop
    · exact hmoved
  · have hnew : (initial.acts before).subscribe.heard[(initial.acts before).heard.length]? =
        some [] := by
      rw [subscribe, List.getElem?_concat_length]
    obtain ⟨states, hstates, htrace⟩ := heard_acts _ after hnew
    refine ⟨states, ?_, ?_⟩
    · show (initial.acts as).heard[_]? = _
      rw [has, acts_append]
      exact hstates
    · have hstay : ((initial.acts before).act .subscribe).state = (initial.acts before).state := rfl
      rw [destutter_trace_cons, if_pos hstay]
      exact htrace
  · by_cases hclosed : c.state = .closed
    · rw [close, if_pos hclosed] at hclose
      cases hclose
    · rw [close, if_neg hclosed]
      exact acts_of_closed rfl more
  · have hsound := sound_acts sound_initial has
    refine ⟨hsound.terminal, fun halive => ?_⟩
    have hreported := hsound.reported
    rw [Reported, show (initial.acts as).state = .alive from halive] at hreported
    exact hreported

/-- Up to the first connection and its end, with a listener from the beginning. -/
theorem answers_and_listeners_of_first_connection :
    let as := .subscribe :: connect.map .operate
    let c := initial.acts as
    let closed := (c.close .endOfInput).1
    Conducted as ∧ c.state = .alive ∧ c.terminal = none ∧
      (initial.reports [] as).Perm [(1, .reader), (1, .writer)] ∧
      c.heard[0]? = some [.reconnecting, .connecting, .writing, .alive] ∧
      c.accepts .begin = false ∧ c.apply .begin = c ∧ (c.close .endOfInput).2 = true ∧
      (closed.acts [.operate .begin, .subscribe]).terminal = some .endOfInput := by
  intro as c closed
  have hway : Conducted as := by
    intro source target hmem
    simp only [as, connect, List.map_cons, List.map_nil, List.mem_cons, Act.operate.injEq,
      Op.transition.injEq, reduceCtorEq, false_or, or_false, List.not_mem_nil] at hmem
    exact hmem
  obtain ⟨hrefused, -, -, hheard, hclosed, hconducted⟩ := answers_and_listeners as
  have halive : c.state = .alive := by decide
  have hbegin : c.accepts .begin = false := by decide
  have hclose : (c.close .endOfInput).2 = true := by decide
  obtain ⟨states, hstates, htrace⟩ := hheard [] (connect.map .operate) rfl
  have hpath : (initial.trace as).destutter (· ≠ ·) =
      [.uninitialized, .reconnecting, .connecting, .writing, .alive] := by decide
  have hsame : State.uninitialized :: states =
      [.uninitialized, .reconnecting, .connecting, .writing, .alive] := htrace.symm.trans hpath
  cases hsame
  exact ⟨hway, halive, (hconducted hway).1.2 halive, (hconducted hway).2 halive, hstates, hbegin,
    hrefused .begin hbegin, hclose, (hclosed .endOfInput hclose _).2.2⟩

end Cell
end TupleClient.Lifecycle
