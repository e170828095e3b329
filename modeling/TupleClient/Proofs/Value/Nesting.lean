import Mathlib.Data.Nat.Basic
import Mathlib.Tactic.Push
import TupleClient.Value

/-!
Where the parts of a value lie, and the one form that every value has after a trip over the wire.
-/
namespace TupleClient.Value

def IsScalar : Value → Prop
  | .array _ => False
  | .map _ => False
  | _ => True

/-- What holds of a value if it holds of the parts holds of all values. -/
theorem induct {P : Value → Prop} (scalar : ∀ v, v.IsScalar → P v)
    (array : ∀ items, (∀ v ∈ items, P v) → P (.array items))
    (map : ∀ entries, (∀ e ∈ entries, P e.1 ∧ P e.2) → P (.map entries)) (v : Value) : P v := by
  refine @Value.rec P (fun items => ∀ v ∈ items, P v)
    (fun entries => ∀ e ∈ entries, P e.1 ∧ P e.2) (fun e => P e.1 ∧ P e.2) ?nil ?bool ?int
    ?float32 ?float64 ?text ?binary array map ?uuid ?ext ?noItem ?items ?noEntry ?entries ?entry v
  case noItem | noEntry => simp
  case items | entries =>
    intro x xs hx hxs
    simp only [List.mem_cons, forall_eq_or_imp]
    exact ⟨hx, hxs⟩
  case entry => exact fun _ _ hk hv => ⟨hk, hv⟩
  all_goals
    intros
    exact scalar _ trivial

/-- The second value is a part of the last one, inside of that many arrays and maps. A value is a
part of itself. -/
inductive At : Nat → Value → Value → Prop where
  | self (v : Value) : At 0 v v
  | item {n : Nat} {w v : Value} {items : List Value} (hv : v ∈ items) (h : At n w v) :
      At (n + 1) w (.array items)
  | key {n : Nat} {w k v : Value} {entries : List (Value × Value)} (he : (k, v) ∈ entries)
      (h : At n w k) : At (n + 1) w (.map entries)
  | entry {n : Nat} {w k v : Value} {entries : List (Value × Value)} (he : (k, v) ∈ entries)
      (h : At n w v) : At (n + 1) w (.map entries)

mutual
def nesting : Value → Nat
  | .array items => nestingItems items
  | .map entries => nestingEntries entries
  | _ => 0
def nestingItems : List Value → Nat
  | [] => 0
  | v :: vs => max (v.nesting + 1) (nestingItems vs)
def nestingEntries : List (Value × Value) → Nat
  | [] => 0
  | (k, v) :: es => max (max (k.nesting + 1) (v.nesting + 1)) (nestingEntries es)
end

theorem nesting_of_isScalar {v : Value} (h : v.IsScalar) : v.nesting = 0 := by
  cases v with
  | array | map => cases h
  | _ => simp [nesting]

theorem nestingItems_lt {items : List Value} {levels : Nat} :
    nestingItems items < levels + 1 ↔ ∀ v ∈ items, v.nesting < levels := by
  induction items with
  | nil => simp [nestingItems]
  | cons v vs ih =>
    simp only [nestingItems, Nat.max_lt, ih, List.mem_cons, forall_eq_or_imp,
      Nat.add_lt_add_iff_right]

theorem nestingEntries_lt {entries : List (Value × Value)} {levels : Nat} :
    nestingEntries entries < levels + 1 ↔
      ∀ e ∈ entries, e.1.nesting < levels ∧ e.2.nesting < levels := by
  induction entries with
  | nil => simp [nestingEntries]
  | cons e es ih =>
    simp only [nestingEntries, Nat.max_lt, ih, List.mem_cons, forall_eq_or_imp,
      Nat.add_lt_add_iff_right]

theorem At.le_nesting {n : Nat} {w v : Value} (h : At n w v) : n ≤ v.nesting := by
  induction h with
  | self => exact Nat.zero_le _
  | item hv _ ih =>
    have hlt := nestingItems_lt.1 (Nat.lt_succ_self _) _ hv
    exact Nat.succ_le_of_lt (Nat.lt_of_le_of_lt ih hlt)
  | key he _ ih =>
    have hlt := (nestingEntries_lt.1 (Nat.lt_succ_self _) _ he).1
    exact Nat.succ_le_of_lt (Nat.lt_of_le_of_lt ih hlt)
  | entry he _ ih =>
    have hlt := (nestingEntries_lt.1 (Nat.lt_succ_self _) _ he).2
    exact Nat.succ_le_of_lt (Nat.lt_of_le_of_lt ih hlt)

theorem exists_at_of_le_nesting (v : Value) :
    ∀ k, k ≤ v.nesting → ∃ n w, At n w v ∧ k ≤ n := by
  induction v using induct with
  | scalar v hv =>
    intro k hk
    rw [nesting_of_isScalar hv] at hk
    exact ⟨0, v, .self v, hk⟩
  | array items ih =>
    intro k hk
    cases k with
    | zero => exact ⟨0, _, .self _, Nat.le_refl 0⟩
    | succ k =>
      have hdeep : ¬∀ v ∈ items, v.nesting < k := fun h => Nat.not_le.2 (nestingItems_lt.2 h) hk
      push Not at hdeep
      obtain ⟨v, hv, hle⟩ := hdeep
      obtain ⟨n, w, hw, hn⟩ := ih v hv k hle
      exact ⟨n + 1, w, .item hv hw, Nat.succ_le_succ hn⟩
  | map entries ih =>
    intro k hk
    cases k with
    | zero => exact ⟨0, _, .self _, Nat.le_refl 0⟩
    | succ k =>
      have hdeep : ¬∀ e ∈ entries, e.1.nesting < k ∧ e.2.nesting < k :=
        fun h => Nat.not_le.2 (nestingEntries_lt.2 h) hk
      push Not at hdeep
      obtain ⟨⟨key, v⟩, he, hle⟩ := hdeep
      by_cases hkey : key.nesting < k
      · obtain ⟨n, w, hw, hn⟩ := (ih _ he).2 k (hle hkey)
        exact ⟨n + 1, w, .entry he hw, Nat.succ_le_succ hn⟩
      · obtain ⟨n, w, hw, hn⟩ := (ih _ he).1 k (Nat.le_of_not_lt hkey)
        exact ⟨n + 1, w, .key he hw, Nat.succ_le_succ hn⟩

theorem nesting_le_iff {v : Value} {k : Nat} : v.nesting ≤ k ↔ ∀ n w, At n w v → n ≤ k := by
  constructor
  · intro h n w hw
    exact Nat.le_trans hw.le_nesting h
  · intro h
    obtain ⟨n, w, hw, hn⟩ := exists_at_of_le_nesting v v.nesting (Nat.le_refl _)
    exact Nat.le_trans hn (h n w hw)

theorem lt_nesting_iff {v : Value} {k : Nat} : k < v.nesting ↔ ∃ n w, At n w v ∧ k < n := by
  rw [← Nat.not_le, nesting_le_iff]
  push Not
  exact Iff.rfl

mutual
/-- An extension of sixteen bytes under the subtype 2 is a UUID, at whatever depth it stands; all
else is left as it is. -/
def canonical : Value → Value
  | .array items => .array (canonicalItems items)
  | .map entries => .map (canonicalEntries entries)
  | .ext subtype data =>
    if h : subtype = 2 ∧ data.length = 16 then .uuid ⟨data, h.2⟩ else .ext subtype data
  | v => v
def canonicalItems : List Value → List Value
  | [] => []
  | v :: vs => v.canonical :: canonicalItems vs
def canonicalEntries : List (Value × Value) → List (Value × Value)
  | [] => []
  | (k, v) :: es => (k.canonical, v.canonical) :: canonicalEntries es
end

theorem canonicalItems_eq (items : List Value) : canonicalItems items = items.map canonical := by
  induction items with
  | nil => rfl
  | cons v vs ih => rw [canonicalItems, ih, List.map_cons]

theorem canonicalEntries_eq (entries : List (Value × Value)) :
    canonicalEntries entries = entries.map fun e => (e.1.canonical, e.2.canonical) := by
  induction entries with
  | nil => rfl
  | cons e es ih => rw [canonicalEntries, ih, List.map_cons]

end TupleClient.Value
