import Mathlib.Data.List.Nodup
import TupleClient.Catalog.Snapshot
import TupleClient.Proofs.FirstFault

/-!
The join of the rows of spaces with the rows of indexes. Every row is read or the first bad one is
told of; each space has the indexes of its id, all of them and no others, and is found by its name
and by its id.
-/
namespace TupleClient.Catalog

open Wire

theorem Part.ofValues_eq (vs : List Value) : Part.ofValues vs = vs.mapM Part.ofValue := by
  induction vs with
  | nil => rfl
  | cons v vs ih =>
    rw [Part.ofValues, ih, List.mapM_cons]
    rfl

theorem Snapshot.indexRows_eq (rows : List Value) :
    Snapshot.indexRows rows = rows.mapM Index.ofRow := by
  induction rows with
  | nil => rfl
  | cons row rows ih =>
    rw [Snapshot.indexRows, ih, List.mapM_cons]
    rfl

def ownIndexes (indexes : List (Nat × Index)) (id : Nat) : List Index :=
  ((indexes.filter (·.1 == id)).map Prod.snd).mergeSort (fun a b => a.id ≤ b.id)

def Space.withOwn (space : Space) (indexes : List (Nat × Index)) : Space :=
  { space with indexes := ownIndexes indexes space.id }

def Snapshot.addAll (s : Snapshot) (indexes : List (Nat × Index)) : List Space → Snapshot
  | [] => s
  | space :: spaces =>
    (s.insert (space.withOwn indexes)).addAll (indexes.filter (·.1 != space.id)) spaces

theorem Snapshot.addSpaces_eq (s : Snapshot) (indexes : List (Nat × Index)) (rows : List Value) :
    s.addSpaces indexes rows = (rows.mapM Space.ofRow).map (s.addAll indexes) := by
  induction rows generalizing s indexes with
  | nil => rfl
  | cons row rows ih =>
    rw [addSpaces, List.mapM_cons]
    cases hrow : Space.ofRow row with
    | error e => rfl
    | ok space =>
      refine (ih _ _).trans ?_
      cases rows.mapM Space.ofRow <;> rfl

theorem Snapshot.join_eq (version : Nat) (spaces indexes : List Value) :
    Snapshot.join version spaces indexes = (do
      let indexes ← indexes.mapM Index.ofRow
      let spaces ← spaces.mapM Space.ofRow
      .ok (Snapshot.addAll ⟨version, [], []⟩ indexes spaces)) := by
  rw [join, indexRows_eq]
  cases indexes.mapM Index.ofRow with
  | error e => rfl
  | ok indexes =>
    refine (addSpaces_eq _ _ _).trans ?_
    cases spaces.mapM Space.ofRow <;> rfl

theorem Snapshot.join_eq_ok_iff {version : Nat} {spaces indexes : List Value} {s : Snapshot} :
    Snapshot.join version spaces indexes = .ok s ↔
      ∃ S I, spaces.mapM Space.ofRow = .ok S ∧ indexes.mapM Index.ofRow = .ok I ∧
        s = Snapshot.addAll ⟨version, [], []⟩ I S := by
  rw [join_eq]
  cases hI : indexes.mapM Index.ofRow with
  | error e => simp [bind, Except.bind]
  | ok I => cases hS : spaces.mapM Space.ofRow <;> simp [bind, Except.bind, eq_comm]

theorem Snapshot.join_eq_error_iff {version : Nat} {spaces indexes : List Value}
    {e : CodecError} :
    Snapshot.join version spaces indexes = .error e ↔
      FirstFault Index.ofRow indexes e ∨
      (∀ row ∈ indexes, ∃ x, Index.ofRow row = .ok x) ∧ FirstFault Space.ofRow spaces e := by
  rw [join_eq, ← exists_mapM_iff, ← mapM_eq_error_iff, ← mapM_eq_error_iff]
  cases hI : indexes.mapM Index.ofRow with
  | error e => simp [bind, Except.bind]
  | ok I => cases hS : spaces.mapM Space.ofRow <;> simp [bind, Except.bind]

theorem Snapshot.join_fails_iff {version : Nat} {spaces indexes : List Value} :
    (∃ e, Snapshot.join version spaces indexes = .error e) ↔
      (∃ row ∈ indexes, ∃ e, Index.ofRow row = .error e) ∨
      ∃ row ∈ spaces, ∃ e, Space.ofRow row = .error e := by
  rw [join_eq, ← exists_mapM_error_iff, ← exists_mapM_error_iff]
  cases hI : indexes.mapM Index.ofRow with
  | error e => simp [bind, Except.bind]
  | ok I => cases hS : spaces.mapM Space.ofRow <;> simp [bind, Except.bind]

section Own

variable {indexes : List (Nat × Index)} {id : Nat}

theorem ownIndexes_perm :
    (ownIndexes indexes id).Perm ((indexes.filter (·.1 == id)).map Prod.snd) :=
  List.mergeSort_perm _ _

theorem ownIndexes_pairwise : (ownIndexes indexes id).Pairwise (·.id ≤ ·.id) := by
  have hsorted := @List.pairwise_mergeSort Index (fun a b => decide (a.id ≤ b.id))
    (by simpa using fun a b c => Nat.le_trans) (by simpa using fun a b => Nat.le_total _ _)
    ((indexes.filter (·.1 == id)).map Prod.snd)
  simpa [ownIndexes] using hsorted

theorem filter_mergeSort {α : Type} {le : α → α → Bool} {l : List α} (p : α → Bool)
    (htrans : ∀ a b c, le a b → le b c → le a c) (htotal : ∀ a b, le a b || le b a)
    (hsame : ∀ a b, p a → p b → le a b) : (l.mergeSort le).filter p = l.filter p := by
  have hpairs : (l.filter p).Pairwise fun a b => le a b :=
    List.pairwise_of_forall_mem_list fun a ha b hb =>
      hsame a b (List.mem_filter.1 ha).2 (List.mem_filter.1 hb).2
  have hsub : (l.filter p).Sublist (l.mergeSort le) :=
    List.sublist_mergeSort htrans htotal hpairs List.filter_sublist
  have hkept : (l.filter p).Sublist ((l.mergeSort le).filter p) := by
    simpa using hsub.filter p
  have hlength : (l.filter p).length = ((l.mergeSort le).filter p).length :=
    ((List.mergeSort_perm l le).filter p).length_eq.symm
  exact (hkept.eq_of_length hlength).symm

theorem filter_ownIndexes (n : Nat) :
    (ownIndexes indexes id).filter (·.id == n) =
      ((indexes.filter (·.1 == id)).map Prod.snd).filter (·.id == n) := by
  refine filter_mergeSort _ (by simpa using fun a b c => Nat.le_trans)
    (by simpa using fun a b => Nat.le_total _ _) fun a b ha hb => ?_
  simp only [beq_iff_eq, decide_eq_true_eq] at ha hb ⊢
  exact Nat.le_of_eq (ha.trans hb.symm)

theorem ownIndexes_filter {id' : Nat} (h : id ≠ id') :
    ownIndexes (indexes.filter (·.1 != id')) id = ownIndexes indexes id := by
  have hrows : (indexes.filter (·.1 != id')).filter (·.1 == id) = indexes.filter (·.1 == id) := by
    rw [List.filter_filter]
    refine List.filter_congr fun row _ => ?_
    simp only [bne, Bool.and_eq_left_iff_imp, beq_iff_eq, Bool.not_eq_true']
    rintro rfl
    simpa using h
  rw [ownIndexes, hrows, ownIndexes]

theorem flatMap_ownIndexes_perm {ids : List Nat} (hids : ids.Nodup) :
    (ids.flatMap (ownIndexes indexes)).Perm
      ((indexes.filter fun row => decide (row.1 ∈ ids)).map Prod.snd) := by
  induction ids with
  | nil => simp
  | cons id ids ih =>
    obtain ⟨hid, hids⟩ := List.nodup_cons.1 hids
    have hown : (indexes.filter fun row => decide (row.1 ∈ id :: ids)).filter (·.1 == id) =
        indexes.filter (·.1 == id) := by
      rw [List.filter_filter]
      refine List.filter_congr fun row _ => ?_
      by_cases hrow : row.1 = id <;> simp [hrow]
    have hothers : (indexes.filter fun row => decide (row.1 ∈ id :: ids)).filter
        (fun row => !(row.1 == id)) = indexes.filter fun row => decide (row.1 ∈ ids) := by
      rw [List.filter_filter]
      refine List.filter_congr fun row _ => ?_
      by_cases hrow : row.1 = id <;> simp [hrow, hid]
    -- The rows of the first space, and then those of the others.
    have hsplit := List.filter_append_perm (fun row : Nat × Index => row.1 == id)
      (indexes.filter fun row => decide (row.1 ∈ id :: ids))
    rw [hown, hothers] at hsplit
    rw [List.flatMap_cons]
    refine (ownIndexes_perm.append (ih hids)).trans ?_
    rw [← List.map_append]
    exact hsplit.map _

end Own

/-- With distinct ids and names every space that was read is kept, and has its own indexes. -/
theorem Snapshot.addAll_eq {s : Snapshot} {indexes : List (Nat × Index)} {spaces : List Space}
    (hids : (spaces.map Space.id).Nodup) (hnames : (spaces.map Space.name).Nodup)
    (hnew : ∀ space ∈ spaces, ∀ entry ∈ s.spaces, entry.1 ≠ space.name) :
    s.addAll indexes spaces =
      ⟨s.version, (spaces.map fun space => (space.name, space.withOwn indexes)).reverse ++ s.spaces,
        (spaces.map fun space => (space.id, space.name)).reverse ++ s.names⟩ := by
  induction spaces generalizing s indexes with
  | nil => rfl
  | cons space spaces ih =>
    obtain ⟨hid, hids⟩ := List.nodup_cons.1 hids
    obtain ⟨hname, hnames⟩ := List.nodup_cons.1 hnames
    obtain ⟨hfirst, hnew⟩ := List.forall_mem_cons.1 hnew
    have hkept : s.spaces.filter (fun e => e.1 != space.name) = s.spaces :=
      List.filter_eq_self.2 fun entry hentry => by simpa using hfirst entry hentry
    -- What the first space takes away is not of the others.
    have hown : ∀ other ∈ spaces,
        other.withOwn (indexes.filter (·.1 != space.id)) = other.withOwn indexes := by
      intro other hother
      have hne : other.id ≠ space.id := fun h => hid (h ▸ List.mem_map_of_mem hother)
      rw [Space.withOwn, ownIndexes_filter hne, Space.withOwn]
    have hpairs : (spaces.map fun other =>
        (other.name, other.withOwn (indexes.filter (·.1 != space.id)))) =
        spaces.map fun other => (other.name, other.withOwn indexes) :=
      List.map_congr_left fun other hother => by rw [hown other hother]
    rw [addAll, ih hids hnames, hpairs]
    · simp [insert, Space.withOwn, hkept]
    · intro other hother entry hentry
      rcases List.mem_cons.1 hentry with rfl | hentry
      · exact fun h : space.name = other.name => hname (h ▸ List.mem_map_of_mem hother)
      · exact hnew other hother entry (List.mem_filter.1 hentry).1

section Lookup

variable {α κ β : Type} [BEq κ] [LawfulBEq κ] {key : α → κ} (val : α → β) {l : List α}

theorem lookup_of_nodup {a : α} (hkeys : (l.map key).Nodup) (ha : a ∈ l) :
    (l.map fun x => (key x, val x)).reverse.lookup (key a) = some (val a) := by
  obtain ⟨before, after, rfl⟩ := List.append_of_mem ha
  rw [List.lookup_eq_some_iff]
  refine ⟨(after.map fun x => (key x, val x)).reverse,
    (before.map fun x => (key x, val x)).reverse, by simp, ?_⟩
  rw [List.map_append, List.map_cons, List.nodup_middle, List.nodup_cons] at hkeys
  intro entry hentry
  obtain ⟨x, hx, rfl⟩ := List.mem_map.1 (List.mem_reverse.1 hentry)
  have hne : key a ≠ key x := fun h =>
    hkeys.1 (List.mem_append_right _ (h ▸ List.mem_map_of_mem hx))
  simpa using hne

theorem lookup_of_forall_ne {k : κ} (h : ∀ x ∈ l, key x ≠ k) :
    (l.map fun x => (key x, val x)).reverse.lookup k = none := by
  rw [List.lookup_eq_none_iff]
  intro entry hentry
  obtain ⟨x, hx, rfl⟩ := List.mem_map.1 (List.mem_reverse.1 hentry)
  simpa using (h x hx).symm

end Lookup

/-- `whole` is the space with all indexes that the rows have under its id: each as often as there,
by ascending id, and those of one id in the order of the rows. -/
structure Space.Completes (indexes : List (Nat × Index)) (space whole : Space) : Prop where
  id : whole.id = space.id
  name : whole.name = space.name
  engine : whole.engine = space.engine
  fields : whole.fields = space.fields
  own : whole.indexes.Perm ((indexes.filter (·.1 == space.id)).map Prod.snd)
  ascending : whole.indexes.Pairwise (·.id ≤ ·.id)
  stable : ∀ n, whole.indexes.filter (·.id == n) =
    ((indexes.filter (·.1 == space.id)).map Prod.snd).filter (·.id == n)

theorem Space.completes_withOwn (space : Space) (indexes : List (Nat × Index)) :
    Completes indexes space (space.withOwn indexes) :=
  ⟨rfl, rfl, rfl, rfl, ownIndexes_perm, ownIndexes_pairwise, filter_ownIndexes⟩

/-- The catalog of the spaces and index rows that were read: it has all of the spaces and nothing
else, and no index of a space that is not there. -/
structure Snapshot.Joined (version : Nat) (spaces : List Space) (indexes : List (Nat × Index))
    (s : Snapshot) : Prop where
  version : s.version = version
  size : s.size = spaces.length
  found : ∀ space ∈ spaces, ∃ whole, space.Completes indexes whole ∧
    s.space space.name = .ok whole ∧ s.spaceById space.id = .ok whole
  noName : ∀ name, (∀ space ∈ spaces, space.name ≠ name) →
    s.space name = .error (.spaceNotFound name)
  noId : ∀ id, (∀ space ∈ spaces, space.id ≠ id) →
    s.spaceById id = .error (.spaceNotFound s!"#{id}")
  accounted : (s.spaces.flatMap fun entry => entry.2.indexes).Perm
    ((indexes.filter fun row => decide (row.1 ∈ spaces.map Space.id)).map Prod.snd)

theorem Snapshot.joined_addAll {version : Nat} {spaces : List Space}
    {indexes : List (Nat × Index)} (hids : (spaces.map Space.id).Nodup)
    (hnames : (spaces.map Space.name).Nodup) :
    Joined version spaces indexes (Snapshot.addAll ⟨version, [], []⟩ indexes spaces) := by
  rw [addAll_eq hids hnames fun _ _ _ hentry => absurd hentry List.not_mem_nil]
  simp only [List.append_nil]
  refine ⟨rfl, by simp [size], fun space hspace => ?_, fun name hname => ?_, fun id hid => ?_, ?_⟩
  · have hname := lookup_of_nodup (·.withOwn indexes) hnames hspace
    have hid := lookup_of_nodup Space.name hids hspace
    exact ⟨_, space.completes_withOwn indexes, by simp only [Snapshot.space, space?, hname],
      by simp only [spaceById, hid, Option.bind_some, space?, hname]⟩
  · have hnone := lookup_of_forall_ne (·.withOwn indexes) hname
    simp only [Snapshot.space, space?, hnone]
  · have hnone := lookup_of_forall_ne Space.name hid
    simp only [spaceById, hnone, Option.bind_none]
  · have hrows : ((spaces.map fun space => (space.name, space.withOwn indexes)).flatMap
        fun entry => entry.2.indexes) = (spaces.map Space.id).flatMap (ownIndexes indexes) := by
      simp [List.flatMap_map, Space.withOwn]
    exact ((List.reverse_perm _).flatMap_right _).trans
      (hrows ▸ flatMap_ownIndexes_perm hids)

inductive Part.Spelled (n t : Value) : Value → Prop where
  | pair : Spelled n t (.array [n, t])
  | map : Spelled n t (.map [(.text "field", n), (.text "type", t)])
  | swapped : Spelled n t (.map [(.text "type", t), (.text "field", n)])

def Part.Same (v v' : Value) : Prop := v = v' ∨ ∃ n t, Spelled n t v ∧ Spelled n t v'

/-- The same row of an index up to the spelling of its parts, which are the sixth column. -/
def Index.SameRow (row row' : Value) : Prop :=
  row = row' ∨ ∃ before parts parts' after, before.length = 5 ∧
    row = .array (before ++ .array parts :: after) ∧
    row' = .array (before ++ .array parts' :: after) ∧ List.Forall₂ Part.Same parts parts'

theorem Part.ofValue_of_spelled {n t v : Value} (hv : Spelled n t v) (part : Part) :
    Part.ofValue v = .ok part ↔
      ∃ k, n.nat32? = some k ∧ part = ⟨k, t.text?.getD "any"⟩ := by
  cases hv <;> cases hn : n.nat32? <;>
    simp [Part.ofValue, Value.get?, Value.findEntry?, Value.text?, hn, unexpected, eq_comm]

theorem Part.ofValue_of_same {v v' : Value} (h : Same v v') (part : Part) :
    Part.ofValue v = .ok part ↔ Part.ofValue v' = .ok part := by
  obtain rfl | ⟨n, t, hv, hv'⟩ := h
  · rfl
  · rw [ofValue_of_spelled hv, ofValue_of_spelled hv']

theorem idColumn_eq_ok_iff {columns : List Value} (whole : Value) {i n : Nat} :
    idColumn columns whole i = .ok n ↔ columns[i]?.bind Value.nat32? = some n := by
  rw [idColumn, column]
  cases hv : columns[i]? with
  | none => simp [unexpected, bind, Except.bind]
  | some v => cases hn : v.nat32? <;> simp [unexpected, bind, Except.bind, hn]

theorem nameColumn_eq_ok_iff {columns : List Value} (whole : Value) {i : Nat} {name : String} :
    nameColumn columns whole i = .ok name ↔ columns[i]?.bind Value.text? = some name := by
  rw [nameColumn, column]
  cases hv : columns[i]? with
  | none => simp [unexpected, bind, Except.bind]
  | some v => cases hn : v.text? <;> simp [unexpected, bind, Except.bind, hn]

theorem Index.ofRow_eq_ok_iff {columns : List Value} {space : Nat} {index : Index} :
    Index.ofRow (.array columns) = .ok (space, index) ↔
      columns[0]?.bind Value.nat32? = some space ∧
      columns[1]?.bind Value.nat32? = some index.id ∧
      columns[2]?.bind Value.text? = some index.name ∧
      columns[3]?.bind Value.text? = some index.kind ∧
      ((columns[4]?.bind (·.get? "unique")).bind Value.bool?).getD false = index.unique ∧
      partsOf columns[5]? = .ok index.parts := by
  simp only [← idColumn_eq_ok_iff (.array columns), ← nameColumn_eq_ok_iff (.array columns)]
  obtain ⟨id, name, kind, unique, parts⟩ := index
  simp only [Index.ofRow, bind, bind_eq_ok_iff, Except.ok.injEq, Prod.mk.injEq, Index.mk.injEq]
  constructor
  · rintro ⟨_, hparts, _, hid, _, hname, _, hkind, _, hspace, rfl, rfl, rfl, rfl, hunique, rfl⟩
    exact ⟨hspace, hid, hname, hkind, hunique, hparts⟩
  · rintro ⟨hspace, hid, hname, hkind, hunique, hparts⟩
    exact ⟨_, hparts, _, hid, _, hname, _, hkind, _, hspace, rfl, rfl, rfl, rfl, hunique, rfl⟩

theorem Index.ofRow_of_sameRow {row row' : Value} (h : SameRow row row') (x : Nat × Index) :
    Index.ofRow row = .ok x ↔ Index.ofRow row' = .ok x := by
  obtain rfl | ⟨before, parts, parts', after, hlength, rfl, rfl, hparts⟩ := h
  · rfl
  have hpartsOf : ∀ ps, partsOf (some (.array parts)) = .ok ps ↔
      partsOf (some (.array parts')) = .ok ps := by
    simpa only [partsOf, Part.ofValues_eq] using
      mapM_eq_ok_of_forall₂ hparts fun _ _ => Part.ofValue_of_same
  obtain ⟨space, index⟩ := x
  obtain ⟨a, b, c, d, e, rfl⟩ : ∃ a b c d e, before = [a, b, c, d, e] := by
    match before, hlength with
    | [a, b, c, d, e], _ => exact ⟨a, b, c, d, e, rfl⟩
  rw [ofRow_eq_ok_iff, ofRow_eq_ok_iff]
  simp [hpartsOf]

theorem Snapshot.join_of_sameRows {version : Nat} {spaces indexes indexes' : List Value}
    (h : List.Forall₂ Index.SameRow indexes indexes') (s : Snapshot) :
    Snapshot.join version spaces indexes = .ok s ↔
      Snapshot.join version spaces indexes' = .ok s := by
  simp only [join_eq_ok_iff, mapM_eq_ok_of_forall₂ h fun _ _ => Index.ofRow_of_sameRow]

/-- The join fails only on a row that cannot be read, and tells of the first one, index rows before
spaces. With distinct ids and names the catalog has each space with its own indexes and nothing
else. The spelling of index parts does not matter. -/
theorem Snapshot.join_correct (version : Nat) (spaces indexes : List Value) :
    ((∃ e, Snapshot.join version spaces indexes = .error e) ↔
      (∃ row ∈ indexes, ∃ e, Index.ofRow row = .error e) ∨
      ∃ row ∈ spaces, ∃ e, Space.ofRow row = .error e) ∧
    (∀ e, Snapshot.join version spaces indexes = .error e ↔
      FirstFault Index.ofRow indexes e ∨
      (∀ row ∈ indexes, ∃ x, Index.ofRow row = .ok x) ∧ FirstFault Space.ofRow spaces e) ∧
    (∀ S I, List.Forall₂ (fun row space => Space.ofRow row = .ok space) spaces S →
      List.Forall₂ (fun row index => Index.ofRow row = .ok index) indexes I →
      (S.map Space.id).Nodup → (S.map Space.name).Nodup →
      ∃ s, Snapshot.join version spaces indexes = .ok s ∧ s.Joined version S I) ∧
    ∀ indexes', List.Forall₂ Index.SameRow indexes indexes' → ∀ s,
      Snapshot.join version spaces indexes = .ok s ↔
        Snapshot.join version spaces indexes' = .ok s := by
  refine ⟨join_fails_iff, fun e => join_eq_error_iff, fun S I hS hI hids hnames => ?_,
    fun indexes' h s => join_of_sameRows h s⟩
  exact ⟨Snapshot.addAll ⟨version, [], []⟩ I S,
    join_eq_ok_iff.2 ⟨S, I, mapM_eq_ok_iff.2 hS, mapM_eq_ok_iff.2 hI, rfl⟩,
    joined_addAll hids hnames⟩

/-- Two spaces, and a first one whose indexes come in the wrong order, one of them in the older
spelling; the last row is of a space that is not there. -/
theorem Snapshot.join_two_spaces :
    let spaces := [.array [.int 512, .int 1, .text "users", .text "memtx"],
      .array [.int 513, .int 1, .text "empty", .text "vinyl"]]
    let row (space id : Nat) (name : String) (part : Value) : Value :=
      .array [.ofNat space, .ofNat id, .text name, .text "tree", .map [], .array [part]]
    let part := .map [(.text "field", .int 0), (.text "type", .text "unsigned")]
    let indexes := [row 512 1 "by_email" part, row 512 0 "primary" part, row 7 0 "lost" part]
    let respelled := [row 512 1 "by_email" part,
      row 512 0 "primary" (.array [.int 0, .text "unsigned"]), row 7 0 "lost" part]
    let index (id : Nat) (name : String) : Index := ⟨id, name, "tree", false, [⟨0, "unsigned"⟩]⟩
    let S : List Space := [⟨512, "users", "memtx", [], []⟩, ⟨513, "empty", "vinyl", [], []⟩]
    let I := [(512, index 1 "by_email"), (512, index 0 "primary"), (7, index 0 "lost")]
    ∃ s, Snapshot.join 3 spaces indexes = .ok s ∧ Snapshot.join 3 spaces respelled = .ok s ∧
      s.Joined 3 S I := by
  intro spaces row part indexes respelled index S I
  obtain ⟨-, -, hjoined, hspelling⟩ := join_correct 3 spaces indexes
  obtain ⟨s, hs, hs'⟩ := hjoined S I (.cons rfl (.cons rfl .nil))
    (.cons rfl (.cons rfl (.cons rfl .nil))) (by decide) (by decide)
  have hpart : Part.Same part (.array [.int 0, .text "unsigned"]) :=
    .inr ⟨_, _, .map, .pair⟩
  have hrow : Index.SameRow (row 512 0 "primary" part)
      (row 512 0 "primary" (.array [.int 0, .text "unsigned"])) :=
    .inr ⟨[.ofNat 512, .ofNat 0, .text "primary", .text "tree", .map []], _, _, [], rfl, rfl, rfl,
      .cons hpart .nil⟩
  have hrows : List.Forall₂ Index.SameRow indexes respelled :=
    .cons (.inl rfl) (.cons hrow (.cons (.inl rfl) .nil))
  exact ⟨s, hs, (hspelling respelled hrows s).1 hs, hs'⟩

end TupleClient.Catalog
