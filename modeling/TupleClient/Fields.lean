import TupleClient.Value

/-!
Values under small numeric keys, in the order of the keys.
-/
namespace TupleClient

/-- Where a key occurs it occurs once. -/
structure Fields where
  entries : List (UInt8 × Value)
  sorted : entries.Pairwise (fun x y => x.1 < y.1)

namespace Fields

def empty : Fields := ⟨[], .nil⟩

instance : Inhabited Fields := ⟨empty⟩

def insertInto (key : UInt8) (v : Value) : List (UInt8 × Value) → List (UInt8 × Value)
  | [] => [(key, v)]
  | (k, w) :: rest =>
    if key < k then (key, v) :: (k, w) :: rest
    else if key = k then (key, v) :: rest
    else (k, w) :: insertInto key v rest

theorem mem_insertInto {key : UInt8} {v : Value} {entries : List (UInt8 × Value)}
    {e : UInt8 × Value} (h : e ∈ insertInto key v entries) : e.1 = key ∨ e ∈ entries := by
  induction entries with
  | nil => simp_all [insertInto]
  | cons x rest ih =>
    obtain ⟨k, w⟩ := x
    simp only [insertInto] at h
    split at h
    · rcases List.mem_cons.1 h with rfl | h
      · exact .inl rfl
      · exact .inr h
    · split at h
      · rcases List.mem_cons.1 h with rfl | h
        · exact .inl rfl
        · exact .inr (List.mem_cons_of_mem _ h)
      · rcases List.mem_cons.1 h with rfl | h
        · exact .inr (List.mem_cons_self ..)
        · exact (ih h).imp id (List.mem_cons_of_mem _)

theorem sorted_insertInto (key : UInt8) (v : Value) {entries : List (UInt8 × Value)}
    (h : entries.Pairwise (fun x y => x.1 < y.1)) :
    (insertInto key v entries).Pairwise (fun x y => x.1 < y.1) := by
  induction entries with
  | nil => simp [insertInto]
  | cons x rest ih =>
    obtain ⟨k, w⟩ := x
    obtain ⟨hk, hrest⟩ := List.pairwise_cons.1 h
    simp only [insertInto]
    split
    · rename_i hlt
      refine List.pairwise_cons.2 ⟨fun e he => ?_, h⟩
      rcases List.mem_cons.1 he with rfl | he
      · exact hlt
      · exact UInt8.lt_trans hlt (hk e he)
    · split
      · rename_i heq
        subst heq
        exact List.pairwise_cons.2 ⟨hk, hrest⟩
      · rename_i hnlt hne
        refine List.pairwise_cons.2 ⟨fun e he => ?_, ih hrest⟩
        rcases mem_insertInto he with he | he
        · rw [he]
          exact UInt8.lt_of_le_of_ne (UInt8.not_lt.1 hnlt) (Ne.symm hne)
        · exact hk e he

def insert (f : Fields) (key : UInt8) (v : Value) : Fields :=
  ⟨insertInto key v f.entries, sorted_insertInto key v f.sorted⟩

def ofList (entries : List (UInt8 × Value)) : Fields :=
  entries.foldl (fun f e => f.insert e.1 e.2) empty

def get? (f : Fields) (key : UInt8) : Option Value := f.entries.lookup key

def erase (f : Fields) (key : UInt8) : Fields :=
  ⟨f.entries.filter (fun e => e.1 != key), f.sorted.filter _⟩

def toValue (f : Fields) : Value := .map (f.entries.map fun e => (.ofNat e.1.toNat, e.2))

end Fields
end TupleClient
