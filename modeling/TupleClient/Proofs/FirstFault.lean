import Mathlib.Data.List.Forall2

/-!
Steps that may fail, one behind another, and lists that are read row by row: either all of the rows
are read, or the first that cannot be read is told of.
-/
namespace TupleClient

variable {ρ ε α β : Type} {read : ρ → Except ε α} {rows : List ρ} {xs : List α} {e : ε}
  {x : Except ε α} {f : α → Except ε β} {b : β}

theorem bind_eq_ok_iff : x.bind f = .ok b ↔ ∃ a, x = .ok a ∧ f a = .ok b := by
  cases x <;> simp [Except.bind]

theorem bind_eq_error_iff :
    x.bind f = .error e ↔ x = .error e ∨ ∃ a, x = .ok a ∧ f a = .error e := by
  cases x <;> simp [Except.bind]

/-- The first of the rows that cannot be read, and why. -/
def FirstFault (read : ρ → Except ε α) (rows : List ρ) (e : ε) : Prop :=
  ∃ before row after, rows = before ++ row :: after ∧ (∀ r ∈ before, ∃ x, read r = .ok x) ∧
    read row = .error e

theorem firstFault_cons {row : ρ} :
    FirstFault read (row :: rows) e ↔
      read row = .error e ∨ (∃ x, read row = .ok x) ∧ FirstFault read rows e := by
  constructor
  · rintro ⟨before, bad, after, hrows, hbefore, hbad⟩
    cases before with
    | nil =>
      obtain ⟨rfl, -⟩ := List.cons.inj hrows
      exact .inl hbad
    | cons first before =>
      obtain ⟨rfl, hrest⟩ := List.cons.inj hrows
      obtain ⟨hfirst, hothers⟩ := List.forall_mem_cons.1 hbefore
      exact .inr ⟨hfirst, before, bad, after, hrest, hothers, hbad⟩
  · rintro (hbad | ⟨hrow, before, bad, after, rfl, hbefore, hbad⟩)
    · exact ⟨[], row, rows, rfl, nofun, hbad⟩
    · exact ⟨row :: before, bad, after, rfl, List.forall_mem_cons.2 ⟨hrow, hbefore⟩, hbad⟩

theorem mapM_eq_ok_iff :
    rows.mapM read = .ok xs ↔ List.Forall₂ (fun row x => read row = .ok x) rows xs := by
  induction rows generalizing xs with
  | nil => cases xs <;> simp [pure, Except.pure]
  | cons row rows ih =>
    rw [List.mapM_cons]
    cases hrow : read row with
    | error e => cases xs <;> simp [bind, Except.bind, hrow]
    | ok x =>
      cases hrest : rows.mapM read <;> cases xs <;>
        simp [bind, Except.bind, pure, Except.pure, ← ih, hrow, hrest]

theorem mapM_eq_error_iff : rows.mapM read = .error e ↔ FirstFault read rows e := by
  induction rows with
  | nil => simp [FirstFault, pure, Except.pure]
  | cons row rows ih =>
    rw [firstFault_cons, ← ih, List.mapM_cons]
    cases hrow : read row with
    | error e => simp [bind, Except.bind]
    | ok x => cases hrest : rows.mapM read <;> simp [bind, Except.bind, pure, Except.pure]

theorem exists_mapM_iff :
    (∃ xs, rows.mapM read = .ok xs) ↔ ∀ row ∈ rows, ∃ x, read row = .ok x := by
  induction rows with
  | nil => simp [pure, Except.pure]
  | cons row rows ih =>
    rw [List.forall_mem_cons, ← ih, List.mapM_cons]
    cases hrow : read row with
    | error e => simp [bind, Except.bind]
    | ok x => cases hrest : rows.mapM read <;> simp [bind, Except.bind, pure, Except.pure]

theorem exists_eq_error_iff : (∃ e, x = .error e) ↔ ¬∃ a, x = .ok a := by
  cases x <;> simp

theorem exists_mapM_error_iff :
    (∃ e, rows.mapM read = .error e) ↔ ∃ row ∈ rows, ∃ e, read row = .error e := by
  simp only [exists_eq_error_iff, exists_mapM_iff, not_forall, exists_prop]

theorem mapM_eq_ok_of_forall₂ {R : ρ → ρ → Prop} {rows' : List ρ}
    (hrows : List.Forall₂ R rows rows')
    (hread : ∀ row row', R row row' → ∀ x, read row = .ok x ↔ read row' = .ok x)
    (xs : List α) : rows.mapM read = .ok xs ↔ rows'.mapM read = .ok xs := by
  simp only [mapM_eq_ok_iff]
  induction hrows generalizing xs with
  | nil => rfl
  | cons hrow _ ih =>
    cases xs with
    | nil => simp
    | cons x xs =>
      rw [List.forall₂_cons, List.forall₂_cons]
      exact and_congr (hread _ _ hrow x) (ih xs)

end TupleClient
