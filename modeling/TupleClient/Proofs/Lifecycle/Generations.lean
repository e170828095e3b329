import Mathlib.Data.Nat.Basic
import Mathlib.Tactic.Push
import TupleClient.Lifecycle

/-!
What the numbers of connections keep apart. A number whose connection broke counts for nothing once
the next number is handed out; until then it counts again whenever another connection is looked for.
-/
namespace TupleClient.Lifecycle

inductive Op where
  | transition (source target : State)
  | begin
  | loopStarted (generation : Nat) (loop : Loop)
  | fail (generation : Nat) (e : ClientError)
  | close (reason : ClientError)

namespace Cell

def apply (c : Cell) : Op → Cell
  | .transition source target => (c.transition source target).1
  | .begin => c.begin.1
  | .loopStarted generation loop => (c.loopStarted generation loop).1
  | .fail generation e => (c.fail generation e).1
  | .close reason => (c.close reason).1

def run (c : Cell) : List Op → Cell
  | [] => c
  | op :: ops => (c.apply op).run ops

def handsOut (c : Cell) : Op → Option Nat
  | .begin => c.begin.2
  | _ => none

/-- The numbers that are handed out on the way, the first one first. -/
def handedOut (c : Cell) : List Op → List Nat
  | [] => []
  | op :: ops => (c.handsOut op).toList ++ (c.apply op).handedOut ops

/-- Neither loop of the connection of a number can change anything any more. -/
def Ignores (c : Cell) (generation : Nat) : Prop :=
  (∀ e, c.fail generation e = (c, false)) ∧ ∀ loop, c.loopStarted generation loop = (c, false)

theorem generation_apply (c : Cell) (op : Op) :
    (c.apply op).generation = c.generation + (c.handsOut op).toList.length := by
  cases op with
  | transition source target => simp only [apply, transition]; split <;> rfl
  | «begin» => simp only [apply, handsOut, begin]; split <;> rfl
  | loopStarted generation loop =>
    simp only [apply, loopStarted]
    split
    · split <;> rfl
    · rfl
  | fail generation e => simp only [apply, fail]; split <;> rfl
  | close reason => simp only [apply, close]; split <;> rfl

theorem generation_run (c : Cell) (ops : List Op) :
    (c.run ops).generation = c.generation + (c.handedOut ops).length := by
  induction ops generalizing c with
  | nil => rfl
  | cons op ops ih =>
    rw [run, handedOut, ih, generation_apply, List.length_append, Nat.add_assoc]

theorem canBecome_uninitialized (s : State) : s.canBecome .uninitialized = false := by
  cases s <;> rfl

theorem afterStart_ne_uninitialized {s t : State} {loop : Loop} (h : s.afterStart loop = some t) :
    t ≠ .uninitialized := by
  rintro rfl
  cases s <;> cases loop <;> cases h

theorem apply_ne_uninitialized {c : Cell} (h : c.state ≠ .uninitialized) (op : Op) :
    (c.apply op).state ≠ .uninitialized := by
  cases op with
  | transition source target =>
    simp only [apply, transition]
    split
    · rename_i hedge
      rintro rfl
      rw [canBecome_uninitialized] at hedge
      cases hedge.2
    · exact h
  | «begin» =>
    simp only [apply, begin]
    split <;> exact h
  | loopStarted generation loop =>
    simp only [apply, loopStarted]
    split
    · split
      · rename_i hs
        exact afterStart_ne_uninitialized hs
      · exact h
    · exact h
  | fail generation e =>
    simp only [apply, fail]
    split
    · exact State.noConfusion
    · exact h
  | close reason =>
    simp only [apply, close]
    split
    · exact h
    · exact State.noConfusion

theorem run_ne_uninitialized {c : Cell} (h : c.state ≠ .uninitialized) (ops : List Op) :
    (c.run ops).state ≠ .uninitialized := by
  induction ops generalizing c with
  | nil => exact h
  | cons op ops ih => exact ih (apply_ne_uninitialized h op)

theorem fail_eq_enter {c : Cell} {generation : Nat} {e : ClientError}
    (h : (c.fail generation e).2 = true) :
    c.generation = generation ∧ (c.fail generation e).1 = c.enter .reconnecting (some e) := by
  unfold fail at h ⊢
  split at h
  · rename_i hcounts
    rw [if_pos hcounts]
    exact ⟨hcounts.1, rfl⟩
  · cases h

theorem fail_of_searching {c : Cell} {generation : Nat} (hg : c.generation = generation)
    (hu : c.state ≠ .uninitialized) (hr : c.state ≠ .reconnecting) (hc : c.state ≠ .closed)
    (e : ClientError) : c.fail generation e = (c.enter .reconnecting (some e), true) := by
  have hedge : c.state.canBecome .reconnecting = true := by
    cases hs : c.state <;> simp_all [State.canBecome]
  rw [fail, if_pos ⟨hg, hedge, hu⟩]

theorem ignores_of_generation_ne {c : Cell} {generation : Nat} (h : c.generation ≠ generation) :
    c.Ignores generation := by
  constructor
  · intro e
    rw [fail, if_neg fun hcounts => h hcounts.1]
  · intro loop
    rw [loopStarted, if_neg h]

theorem ignores_of_state {c : Cell} (h : c.state = .reconnecting ∨ c.state = .closed)
    (generation : Nat) : c.Ignores generation := by
  constructor
  · intro e
    rw [fail, if_neg]
    rintro ⟨-, hedge, -⟩
    rcases h with h | h <;> rw [h] at hedge <;> cases hedge
  · intro loop
    have hstuck : c.state.afterStart loop = none := by
      rcases h with h | h <;> rw [h] <;> cases loop <;> rfl
    simp only [loopStarted, hstuck, ite_self]

theorem ignores_iff {c : Cell} (hu : c.state ≠ .uninitialized) {generation : Nat} :
    c.Ignores generation ↔
      c.generation ≠ generation ∨ c.state = .reconnecting ∨ c.state = .closed := by
  constructor
  · intro h
    by_contra hcounts
    push Not at hcounts
    obtain ⟨hg, hr, hc⟩ := hcounts
    have htrue := fail_of_searching hg hu hr hc (.connection .notConnected)
    rw [h.1] at htrue
    exact Bool.noConfusion (congrArg Prod.snd htrue)
  · rintro (h | h)
    · exact ignores_of_generation_ne h
    · exact ignores_of_state h generation

/-- After a failure that counted, the reports of that connection are ignored while the state is
still the one that the failure led to, and for good once a newer number is handed out or the cell is
closed. Only there: in between, another failure under the old number counts like the first one. -/
theorem ignores_failed_iff (ops more : List Op) (generation : Nat) (e : ClientError)
    (h : ((initial.run ops).fail generation e).2 = true) :
    let failed := ((initial.run ops).fail generation e).1
    let later := failed.run more
    (later.Ignores generation ↔
        failed.handedOut more ≠ [] ∨ later.state = .reconnecting ∨ later.state = .closed) ∧
      (¬later.Ignores generation →
        ∀ again, later.fail generation again = (later.enter .reconnecting (some again), true)) := by
  intro failed later
  obtain ⟨hg, hfailed⟩ : _ ∧ failed = _ := fail_eq_enter h
  have hu : later.state ≠ .uninitialized := by
    apply run_ne_uninitialized
    rw [hfailed]
    exact State.noConfusion
  have hlater : later.generation = generation + (failed.handedOut more).length := by
    rw [← hg, generation_run failed more, hfailed]
    rfl
  have hnewer : later.generation ≠ generation ↔ failed.handedOut more ≠ [] := by
    rw [hlater, ← List.length_pos_iff]
    omega
  have hignores : later.Ignores generation ↔
      later.generation ≠ generation ∨ later.state = .reconnecting ∨ later.state = .closed :=
    ignores_iff hu
  refine ⟨hignores.trans (or_congr_left hnewer), fun hnot again => ?_⟩
  rw [hignores] at hnot
  push Not at hnot
  exact fail_of_searching hnot.1 hu hnot.2.1 hnot.2.2 again

def connect : List Op :=
  [.transition .uninitialized .reconnecting, .transition .reconnecting .connecting, .begin,
    .loopStarted 1 .writer, .loopStarted 1 .reader]

theorem ignores_failed_iff_of_first_connection :
    ((initial.run connect).fail 1 .endOfInput).2 = true ∧
      ¬(((initial.run connect).fail 1 .endOfInput).1.run
        [.transition .reconnecting .connecting]).Ignores 1 ∧
      (((initial.run connect).fail 1 .endOfInput).1.run
        [.transition .reconnecting .connecting, .begin]).Ignores 1 := by
  have hfail : ((initial.run connect).fail 1 .endOfInput).2 = true := by decide
  have hsearching := ignores_failed_iff connect [.transition .reconnecting .connecting] 1 _ hfail
  have hbegun :=
    ignores_failed_iff connect [.transition .reconnecting .connecting, .begin] 1 _ hfail
  refine ⟨hfail, fun h => ?_, hbegun.1.2 (.inl (by decide))⟩
  rcases hsearching.1.1 h with h | h | h <;> revert h <;> decide

/-- A connection can break twice: its second loop is heard while the next connection is looked
for. -/
theorem not_forall_ignores_failed :
    ¬∀ (ops more : List Op) (generation : Nat) (e : ClientError),
      generation ∈ initial.handedOut ops → ((initial.run ops).fail generation e).2 = true →
        (((initial.run ops).fail generation e).1.run more).Ignores generation := by
  intro h
  have hignored := h connect [.transition .reconnecting .connecting] 1 .endOfInput (by decide)
    (by decide)
  have htwice := congrArg Prod.snd (hignored.1 (.connection .notConnected))
  revert htwice
  decide

end Cell
end TupleClient.Lifecycle
