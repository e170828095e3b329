import TupleClient.Proofs.Pipeline.Steps

/-!
How a connection breaks: all that waits over it ends with it.
-/
namespace TupleClient.Pipeline

variable {κ : Type} {p q last : Pipeline κ} {r : Report κ} {s : Signal}

/-- From `p` to `q` nothing came in that waits. A connection that was alive is the same one and
still alive, or nothing waits any more. -/
structure Holds (p q : Pipeline κ) : Prop where
  pending : p.pending = [] → q.pending = []
  alive : p.state = .alive →
    q.state = .alive ∧ q.cell.generation = p.cell.generation ∨ q.pending = []

theorem Holds.trans (h : Holds p q) (g : Holds q last) : Holds p last where
  pending hp := g.pending (h.pending hp)
  alive hp := by
    rcases h.alive hp with ⟨hq, hsame⟩ | hq
    · exact (g.alive hq).imp_left (And.imp_right (·.trans hsame))
    · exact .inr (g.pending hq)

theorem holds_of_eq (hcell : q.cell = p.cell) (hpending : p.pending = [] → q.pending = []) :
    Holds p q :=
  ⟨hpending, fun hp =>
    .inl ⟨(congrArg Lifecycle.Cell.state hcell).trans hp, congrArg _ hcell⟩⟩

theorem Holds.refl (p : Pipeline κ) : Holds p p := holds_of_eq rfl id

theorem expireAll_of_pending_nil (h : p.pending = []) (ids : List Nat) :
    p.expireAll ids = (p, .silent) := by
  induction ids with
  | nil => rfl
  | cons id ids ih => simp [expireAll, expire, complete, operation?, h, ih, Report.silent_andThen]

theorem holds_withdraw (id : Nat) (op : Operation κ) : Holds p (p.withdraw id op) :=
  holds_of_eq rfl fun hp => by simp [withdraw, hp]

theorem Part.holds (h : Part (.signal s) p r q) : Holds p q := by
  have hdead (hpending : q.pending = p.pending) (hstate : p.state ≠ .alive) : Holds p q :=
    ⟨hpending.trans, fun halive => absurd halive hstate⟩
  cases h with
  | supervised hx h => exact hdead rfl (by rw [h]; exact nofun)
  | sought hx h => exact hdead rfl (by rw [h]; exact nofun)
  | begun hx h => exact hdead rfl (by rw [h]; exact nofun)
  | attached hx h => exact hdead rfl (by rw [h]; exact nofun)
  | detached hx h => exact hdead rfl (by rw [h]; exact nofun)
  | @started generation loop state hx h =>
    refine hdead rfl fun halive => ?_
    rw [halive] at h
    cases loop <;> cases h
  | failed hsocket he h => exact ⟨fun _ => rfl, fun _ => .inr rfl⟩
  | closed hx h => exact ⟨fun _ => rfl, fun _ => .inr rfl⟩
  | refused hx he => cases hx
  | registered hx h => cases hx
  | ended h ho => exact holds_withdraw _ _
  | expired hx h => exact holds_withdraw _ _
  | @ticked now hx =>
    refine holds_of_eq (onlyEnds_tick p now).cell fun hp => ?_
    exact congrArg (·.1.pending) (expireAll_of_pending_nil
      (p := { p with deadlines := (p.deadlines.service now).1 }) hp _) |>.trans hp
  | wrote h => exact .refl p
  | changed hcell hpending => exact holds_of_eq hcell hpending.trans

theorem Parts.holds (h : Parts (.signal s) p r q) : Holds p q := by
  induction h with
  | none p => exact .refl p
  | more first _ ih => exact first.holds.trans ih

theorem holds_signal (p : Pipeline κ) (s : Signal) : Holds p (p.signal s).1 :=
  (parts_step p (.signal s)).holds

end TupleClient.Pipeline
