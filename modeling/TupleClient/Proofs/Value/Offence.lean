import Mathlib.Algebra.Ring.Int.Defs
import Mathlib.Algebra.Ring.Nat
import TupleClient.Proofs.Value.Nesting
import TupleClient.Wire.Error

/-!
The parts of a value in the order in which they stand on the wire, and what is wrong with the first
of them that has no wire form.
-/
namespace TupleClient.Value

mutual
/-- A value and all of its parts: an array or a map before what is in it, each key before its
value. -/
def preorder : Value → List Value
  | .array items => .array items :: preorderItems items
  | .map entries => .map entries :: preorderEntries entries
  | v => [v]
def preorderItems : List Value → List Value
  | [] => []
  | v :: vs => v.preorder ++ preorderItems vs
def preorderEntries : List (Value × Value) → List Value
  | [] => []
  | (k, v) :: es => k.preorder ++ (v.preorder ++ preorderEntries es)
end

theorem preorder_of_isScalar {v : Value} (h : v.IsScalar) : v.preorder = [v] := by
  cases v with
  | array | map => cases h
  | _ => simp [preorder]

theorem mem_preorderItems {w : Value} {items : List Value} :
    w ∈ preorderItems items ↔ ∃ v ∈ items, w ∈ v.preorder := by
  induction items with
  | nil => simp [preorderItems]
  | cons v vs ih => simp [preorderItems, ih]

theorem mem_preorderEntries {w : Value} {entries : List (Value × Value)} :
    w ∈ preorderEntries entries ↔ ∃ e ∈ entries, w ∈ e.1.preorder ∨ w ∈ e.2.preorder := by
  induction entries with
  | nil => simp [preorderEntries]
  | cons e es ih => simp [preorderEntries, ih, or_assoc]

theorem mem_preorder {w v : Value} : w ∈ v.preorder ↔ ∃ n, At n w v := by
  induction v using induct with
  | scalar v hv =>
    rw [preorder_of_isScalar hv, List.mem_singleton]
    constructor
    · intro hw
      exact ⟨0, hw ▸ .self w⟩
    · intro h
      obtain ⟨n, hw⟩ := h
      cases hw with
      | self => rfl
      | item | key | entry => cases hv
  | array items ih =>
    rw [preorder, List.mem_cons, mem_preorderItems]
    constructor
    · intro h
      obtain rfl | ⟨v, hv, hw⟩ := h
      · exact ⟨0, .self _⟩
      · obtain ⟨n, hn⟩ := (ih v hv).1 hw
        exact ⟨n + 1, .item hv hn⟩
    · intro h
      obtain ⟨n, hw⟩ := h
      cases hw with
      | self => exact .inl rfl
      | item hv hw => exact .inr ⟨_, hv, (ih _ hv).2 ⟨_, hw⟩⟩
  | map entries ih =>
    rw [preorder, List.mem_cons, mem_preorderEntries]
    constructor
    · intro h
      obtain rfl | ⟨⟨k, v⟩, he, hw | hw⟩ := h
      · exact ⟨0, .self _⟩
      · obtain ⟨n, hn⟩ := (ih _ he).1.1 hw
        exact ⟨n + 1, .key he hn⟩
      · obtain ⟨n, hn⟩ := (ih _ he).2.1 hw
        exact ⟨n + 1, .entry he hn⟩
    · intro h
      obtain ⟨n, hw⟩ := h
      cases hw with
      | self => exact .inl rfl
      | key he hw => exact .inr ⟨_, he, .inl ((ih _ he).1.2 ⟨_, hw⟩)⟩
      | entry he hw => exact .inr ⟨_, he, .inr ((ih _ he).2.2 ⟨_, hw⟩)⟩

def lengthOffence? (what : Wire.Sized) (n : Nat) : Option Wire.CodecError :=
  if n ≤ 2 ^ 32 - 1 then none else some (.lengthOverflow what n)

/-- What is wrong with a value itself, its parts left aside. -/
def offence? : Value → Option Wire.CodecError
  | .int i => if -2 ^ 63 ≤ i ∧ i ≤ 2 ^ 64 - 1 then none else some (.integerOutOfRange i)
  | .text s => lengthOffence? .text s.utf8ByteSize
  | .binary bs => lengthOffence? .binary bs.length
  | .array items => lengthOffence? .array items.length
  | .map entries => lengthOffence? .map entries.length
  | .ext _ data => lengthOffence? .ext data.length
  | _ => none

def Clean (v : Value) : Prop := ∀ n w, At n w v → w.offence? = none

def FirstOffence (v : Value) (e : Wire.CodecError) : Prop :=
  ∃ before w after, v.preorder = before ++ w :: after ∧ (∀ x ∈ before, x.offence? = none) ∧
    w.offence? = some e

theorem clean_iff {v : Value} : v.Clean ↔ v.preorder.findSome? offence? = none := by
  rw [List.findSome?_eq_none_iff]
  constructor
  · intro h w hw
    obtain ⟨n, hn⟩ := mem_preorder.1 hw
    exact h n w hn
  · intro h n w hw
    exact h w (mem_preorder.2 ⟨n, hw⟩)

theorem firstOffence_iff {v : Value} {e : Wire.CodecError} :
    v.FirstOffence e ↔ v.preorder.findSome? offence? = some e := by
  rw [List.findSome?_eq_some_iff, FirstOffence]
  constructor
  · intro h
    obtain ⟨before, w, after, hsplit, hbefore, hw⟩ := h
    exact ⟨before, w, after, hsplit, hw, hbefore⟩
  · intro h
    obtain ⟨before, w, after, hsplit, hw, hbefore⟩ := h
    exact ⟨before, w, after, hsplit, hbefore, hw⟩

end TupleClient.Value
