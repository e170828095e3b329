import Mathlib.Data.List.Induction
import TupleClient.Pipeline
import TupleClient.Proofs.FirstFault
import TupleClient.Proofs.Frame.Sync

/-!
Requests with names. What a name stands for is a relation of the catalog, the argument and the
value; a request with names is framed as the same request with the values in place of the names,
together with the version of the catalog, or not at all.
-/
namespace TupleClient

open Catalog (Snapshot Space Index)

inductive Target.Finds (s : Snapshot) : Target → Space → Prop where
  | id {n : Nat} {name : String} {space : Space} (hname : s.names.lookup n = some name)
      (hspace : s.spaces.lookup name = some space) : Finds s (.id n) space
  | named {name : String} {space : Space} (hspace : s.spaces.lookup name = some space) :
      Finds s (.named name) space

def Target.label : Target → String
  | .id n => s!"#{n}"
  | .named name => name

/-- The value that an argument stands for: of a space its id, and of an index the id of the first
one of that name in the space. -/
inductive Argument.Means (s : Snapshot) : Argument → Value → Prop where
  | value (v : Value) : Means s (.value v) v
  | space {name : String} {space : Space} (hspace : Target.Finds s (.named name) space) :
      Means s (.space name) (.ofNat space.id)
  | index {target : Target} {space : Space} {before after : List Index} {index : Index}
      (hspace : target.Finds s space) (hindexes : space.indexes = before ++ index :: after)
      (hfirst : ∀ other ∈ before, other.name ≠ index.name) :
      Means s (.index target index.name) (.ofNat index.id)

inductive Argument.Fails (s : Snapshot) : Argument → SchemaError → Prop where
  | space {name : String} (hnone : ∀ space, ¬Target.Finds s (.named name) space) :
      Fails s (.space name) (.spaceNotFound name)
  | indexSpace {target : Target} {name : String} (hnone : ∀ space, ¬target.Finds s space) :
      Fails s (.index target name) (.spaceNotFound target.label)
  | index {target : Target} {space : Space} {name : String} (hspace : target.Finds s space)
      (hnone : ∀ index ∈ space.indexes, index.name ≠ name) :
      Fails s (.index target name) (.indexNotFound space.name name)

namespace Request

/-- No argument is a name. -/
def Plain (r : Request) : Prop := ∀ a ∈ r.arguments, ∃ v, a.2 = .value v

/-- For each key the last value that the request gives for it, and no other key. -/
def Holds (r : Request) (body : Fields) : Prop :=
  ∀ key v, body.get? key = some v ↔ ∃ before after,
    r.arguments = before ++ (key, .value v) :: after ∧ ∀ a ∈ after, a.1 ≠ key

/-- The same request with the value of each name in place of the name. -/
structure Becomes (s : Snapshot) (r r' : Request) : Prop where
  type : r'.type = r.type
  arguments : List.Forall₂ (fun a a' => a'.1 = a.1 ∧ ∃ v, a'.2 = .value v ∧ a.2.Means s v)
    r.arguments r'.arguments

/-- The error of the first argument that stands for nothing. -/
def FailsFirst (s : Snapshot) (r : Request) (e : SchemaError) : Prop :=
  ∃ before a after, r.arguments = before ++ a :: after ∧ (∀ b ∈ before, ∃ v, b.2.Means s v) ∧
    a.2.Fails s e

def framed (r : Request) (catalog : Option Snapshot) (sync : Nat) : Except ClientError Message :=
  (r.message catalog).map (·.withSync sync)

end Request

section Resolve

variable {s : Snapshot} {target : Target} {space : Space}

def Target.space? (s : Snapshot) : Target → Option Space
  | .id n => (s.names.lookup n).bind s.space?
  | .named name => s.space? name

theorem Target.space?_eq_some_iff : target.space? s = some space ↔ target.Finds s space := by
  cases target with
  | id n =>
    rw [space?, Option.bind_eq_some_iff]
    constructor
    · rintro ⟨name, hname, hspace⟩
      exact .id hname hspace
    · rintro ⟨hname, hspace⟩
      exact ⟨_, hname, hspace⟩
  | named name =>
    constructor
    · exact .named
    · intro h
      cases h with
      | named hspace => exact hspace

theorem Target.space?_eq_none_iff : target.space? s = none ↔ ∀ space, ¬target.Finds s space := by
  simp only [← space?_eq_some_iff, Option.eq_none_iff_forall_ne_some, ne_eq]

def Target.find (s : Snapshot) (target : Target) : Except SchemaError Space :=
  match target.space? s with
  | some space => .ok space
  | none => .error (.spaceNotFound target.label)

theorem Target.find_eq_ok_iff : target.find s = .ok space ↔ target.Finds s space := by
  rw [find, ← space?_eq_some_iff]
  cases target.space? s <;> simp

theorem Target.find_eq_error_iff {e : SchemaError} :
    target.find s = .error e ↔
      e = .spaceNotFound target.label ∧ ∀ space, ¬target.Finds s space := by
  rw [find, ← space?_eq_none_iff]
  cases target.space? s <;> simp [eq_comm]

theorem Catalog.Space.index_eq_ok_iff {name : String} {index : Index} :
    space.index name = .ok index ↔ index.name = name ∧ ∃ before after,
      space.indexes = before ++ index :: after ∧ ∀ other ∈ before, other.name ≠ name := by
  have hfind := @List.find?_eq_some_iff_append Index index (·.name == name) space.indexes
  simp only [beq_iff_eq, Bool.not_eq_true', beq_eq_false_iff_ne] at hfind
  rw [← hfind, Space.index, Space.index?]
  cases space.indexes.find? (·.name == name) <;> simp

theorem Catalog.Space.index_eq_error_iff {name : String} {e : SchemaError} :
    space.index name = .error e ↔
      e = .indexNotFound space.name name ∧ ∀ index ∈ space.indexes, index.name ≠ name := by
  have hnone := @List.find?_eq_none _ (fun index : Index => index.name == name) space.indexes
  simp only [beq_iff_eq] at hnone
  rw [← hnone, Space.index, Space.index?]
  cases space.indexes.find? (·.name == name) <;> simp [eq_comm]

theorem Request.resolve_space (name : String) :
    resolve s (.space name) =
      (Target.find s (.named name)).bind fun space => .ok (.ofNat space.id) := by
  rw [resolve, Snapshot.space, Target.find, Target.space?]
  cases s.space? name <;> rfl

theorem Request.resolve_index (target : Target) (name : String) :
    resolve s (.index target name) = (target.find s).bind fun space =>
      (space.index name).bind fun index => .ok (.ofNat index.id) := by
  cases target with
  | id n =>
    rw [resolve, Snapshot.spaceById, Target.find, Target.space?]
    cases (s.names.lookup n).bind s.space? <;> rfl
  | named n =>
    rw [resolve, Snapshot.space, Target.find, Target.space?]
    cases s.space? n <;> rfl

theorem Request.resolve_eq_ok_iff {a : Argument} {v : Value} :
    resolve s a = .ok v ↔ a.Means s v := by
  cases a with
  | value w =>
    constructor
    · rintro ⟨⟩
      exact .value v
    · rintro ⟨⟩
      rfl
  | space name =>
    simp only [resolve_space, bind_eq_ok_iff, Target.find_eq_ok_iff]
    constructor
    · rintro ⟨space, hspace, ⟨⟩⟩
      exact .space hspace
    · intro h
      cases h with
      | space hspace => exact ⟨_, hspace, rfl⟩
  | index target name =>
    simp only [resolve_index, bind_eq_ok_iff, Target.find_eq_ok_iff, Space.index_eq_ok_iff]
    constructor
    · rintro ⟨space, hspace, index, ⟨rfl, before, after, hindexes, hfirst⟩, ⟨⟩⟩
      exact .index hspace hindexes hfirst
    · intro h
      cases h with
      | index hspace hindexes hfirst =>
        exact ⟨_, hspace, _, ⟨rfl, _, _, hindexes, hfirst⟩, rfl⟩

theorem Request.resolve_eq_error_iff {a : Argument} {e : SchemaError} :
    resolve s a = .error e ↔ a.Fails s e := by
  cases a with
  | value w =>
    constructor <;> rintro ⟨⟩
  | space name =>
    simp only [resolve_space, bind_eq_error_iff, Target.find_eq_error_iff, reduceCtorEq, and_false,
      exists_false, or_false]
    constructor
    · rintro ⟨rfl, hnone⟩
      exact .space hnone
    · intro h
      cases h with
      | space hnone => exact ⟨rfl, hnone⟩
  | index target name =>
    simp only [resolve_index, bind_eq_error_iff, Target.find_eq_ok_iff, Target.find_eq_error_iff,
      Space.index_eq_error_iff, reduceCtorEq, and_false, exists_false, or_false]
    constructor
    · rintro (⟨rfl, hnone⟩ | ⟨space, hspace, rfl, hnone⟩)
      · exact .indexSpace hnone
      · exact .index hspace hnone
    · intro h
      cases h with
      | indexSpace hnone => exact .inl ⟨rfl, hnone⟩
      | index hspace hnone => exact .inr ⟨_, hspace, rfl, hnone⟩

end Resolve

/-- A list of entries makes the fields that have for each key its last value. -/
theorem Fields.get?_ofList (entries : List (UInt8 × Value)) (key : UInt8) :
    (ofList entries).get? key = entries.reverse.lookup key := by
  induction entries using List.reverseRecOn with
  | nil => rfl
  | append_singleton entries e ih =>
    have hlast : ofList (entries ++ [e]) = (ofList entries).insert e.1 e.2 := by
      rw [ofList, List.foldl_concat]
      rfl
    rw [hlast, List.reverse_append, List.reverse_singleton, List.singleton_append]
    by_cases hkey : key = e.1
    · rw [hkey, List.lookup_cons_self]
      exact lookup_insertInto ..
    · rw [List.lookup_cons, beq_eq_false_iff_ne.2 hkey, ← ih]
      exact lookup_insertInto_of_ne hkey ..

namespace Request

variable {s : Snapshot} {r r' : Request}

def ofValues (type : RequestType) (entries : List (UInt8 × Value)) : Request :=
  ⟨type, entries.map fun e => (e.1, .value e.2)⟩

def entry (s : Snapshot) (a : UInt8 × Argument) : Except SchemaError (UInt8 × Value) :=
  (resolve s a.2).bind fun v => .ok (a.1, v)

theorem entry_eq_ok_iff {a : UInt8 × Argument} {e : UInt8 × Value} :
    entry s a = .ok e ↔ e.1 = a.1 ∧ a.2.Means s e.2 := by
  obtain ⟨key, v⟩ := e
  simp only [entry, bind_eq_ok_iff, resolve_eq_ok_iff, Except.ok.injEq, Prod.mk.injEq]
  constructor
  · rintro ⟨w, hmeans, rfl, rfl⟩
    exact ⟨rfl, hmeans⟩
  · rintro ⟨rfl, hmeans⟩
    exact ⟨v, hmeans, rfl, rfl⟩

theorem entry_eq_error_iff {a : UInt8 × Argument} {e : SchemaError} :
    entry s a = .error e ↔ a.2.Fails s e := by
  simp [entry, bind_eq_error_iff, resolve_eq_error_iff]

theorem fill_eq (s : Snapshot) (arguments : List (UInt8 × Argument)) (body : Fields) :
    fill s arguments body = (arguments.mapM (entry s)).map fun entries =>
      entries.foldl (fun f e => f.insert e.1 e.2) body := by
  induction arguments generalizing body with
  | nil => rfl
  | cons a arguments ih =>
    rw [fill, List.mapM_cons, entry]
    cases hv : resolve s a.2 with
    | error e => rfl
    | ok v =>
      refine (ih _).trans ?_
      cases arguments.mapM (entry s) <;> rfl

theorem exists_entries {given arguments : List (UInt8 × Argument)} (type : RequestType)
    (h : List.Forall₂ (fun a a' => a'.1 = a.1 ∧ ∃ v, a'.2 = .value v ∧ a.2.Means s v)
      given arguments) :
    ∃ entries, arguments = (ofValues type entries).arguments ∧
      List.Forall₂ (fun a e => e.1 = a.1 ∧ a.2.Means s e.2) given entries := by
  induction h with
  | nil => exact ⟨[], rfl, .nil⟩
  | @cons a a' given arguments ha _ ih =>
    obtain ⟨key, value⟩ := a'
    obtain ⟨hkey, v, rfl, hmeans⟩ := ha
    obtain ⟨entries, rfl, hentries⟩ := ih
    exact ⟨(key, v) :: entries, rfl, .cons ⟨hkey, hmeans⟩ hentries⟩

theorem becomes_iff :
    r.Becomes s r' ↔ ∃ entries, r' = ofValues r.type entries ∧
      List.Forall₂ (fun a e => entry s a = .ok e) r.arguments entries := by
  simp only [entry_eq_ok_iff]
  constructor
  · rintro ⟨htype, harguments⟩
    obtain ⟨entries, hvalues, hentries⟩ := exists_entries r.type harguments
    obtain ⟨type, arguments⟩ := r'
    obtain rfl : type = r.type := htype
    obtain rfl : arguments = (ofValues r.type entries).arguments := hvalues
    exact ⟨entries, rfl, hentries⟩
  · rintro ⟨entries, rfl, hentries⟩
    refine ⟨rfl, List.forall₂_map_right_iff.2 (hentries.imp fun a e h => ?_)⟩
    exact ⟨h.1, e.2, rfl, h.2⟩

theorem fill_eq_ok_iff {body : Fields} :
    fill s r.arguments .empty = .ok body ↔ ∃ entries, body = .ofList entries ∧
      List.Forall₂ (fun a e => entry s a = .ok e) r.arguments entries := by
  simp only [← mapM_eq_ok_iff]
  rw [fill_eq]
  cases r.arguments.mapM (entry s) <;> simp [Except.map, Fields.ofList, eq_comm]

theorem fill_eq_error_iff {e : SchemaError} :
    fill s r.arguments .empty = .error e ↔ r.FailsFirst s e := by
  have hfirst : FirstFault (entry s) r.arguments e ↔ r.FailsFirst s e := by
    simp [FirstFault, FailsFirst, entry_eq_ok_iff, entry_eq_error_iff]
  rw [← hfirst, ← mapM_eq_error_iff, fill_eq]
  cases r.arguments.mapM (entry s) <;> simp [Except.map]

theorem exists_ofValues (h : r.Plain) : ∃ entries, r = ofValues r.type entries := by
  -- Where there are no names, the request becomes itself by any catalog.
  have hself : r.Becomes .empty r := by
    refine ⟨rfl, List.forall₂_same.2 fun a ha => ?_⟩
    obtain ⟨v, hv⟩ := h a ha
    exact ⟨rfl, v, hv, hv ▸ .value v⟩
  obtain ⟨entries, hr, -⟩ := becomes_iff.1 hself
  exact ⟨entries, hr⟩

theorem isSchemaBound_iff : r.isSchemaBound = true ↔ ¬r.Plain := by
  simp only [isSchemaBound, Plain, List.any_eq_true, not_forall, exists_prop]
  refine exists_congr fun a => and_congr_right fun _ => ?_
  cases a.2 <;> simp

theorem plain_ofValues (type : RequestType) (entries : List (UInt8 × Value)) :
    (ofValues type entries).Plain := by
  intro a ha
  obtain ⟨e, -, rfl⟩ := List.mem_map.1 ha
  exact ⟨e.2, rfl⟩

theorem message_ofValues (type : RequestType) (entries : List (UInt8 × Value))
    (catalog : Option Snapshot) :
    (ofValues type entries).message catalog =
      .ok ⟨(ofValues type entries).header, .ofList entries⟩ := by
  have hentries : List.Forall₂ (fun a e => entry .empty a = .ok e)
      (ofValues type entries).arguments entries :=
    List.forall₂_map_left_iff.2 (List.forall₂_same.2 fun _ _ => rfl)
  have hfree : ¬(ofValues type entries).isSchemaBound = true :=
    fun hbound => isSchemaBound_iff.1 hbound (plain_ofValues type entries)
  rw [message.eq_def, if_neg hfree, fill_eq_ok_iff.2 ⟨entries, rfl, hentries⟩]

theorem holds_ofValues (type : RequestType) (entries : List (UInt8 × Value)) :
    (ofValues type entries).Holds (.ofList entries) := by
  intro key v
  rw [Fields.get?_ofList, List.lookup_eq_some_iff]
  -- What is found first from behind stands last.
  constructor
  · rintro ⟨after, before, hentries, hlast⟩
    have hsplit : entries = before.reverse ++ (key, v) :: after.reverse := by
      rw [← List.reverse_reverse entries, hentries]
      simp
    refine ⟨(ofValues type before.reverse).arguments, (ofValues type after.reverse).arguments,
      by simp [hsplit, ofValues], fun a ha => ?_⟩
    obtain ⟨e, he, rfl⟩ := List.mem_map.1 ha
    exact (bne_iff_ne.1 (hlast e (List.mem_reverse.1 he))).symm
  · rintro ⟨before, after, harguments, hlast⟩
    obtain ⟨first, rest, rfl, -, hrest⟩ := List.map_eq_append_iff.1 harguments
    obtain ⟨e, last, rfl, he, rfl⟩ := List.map_eq_cons_iff.1 hrest
    obtain ⟨hkey, hvalue⟩ := Prod.mk.inj he
    obtain rfl : e = (key, v) := Prod.ext hkey (Argument.value.inj hvalue)
    refine ⟨last.reverse, first.reverse, by simp, fun e he => bne_iff_ne.2 fun h => ?_⟩
    exact hlast (e.1, .value e.2) (List.mem_map_of_mem (List.mem_reverse.1 he)) h.symm

theorem framed_ofValues (type : RequestType) (entries : List (UInt8 × Value))
    (catalog : Option Snapshot) (sync : Nat) :
    (ofValues type entries).framed catalog sync =
      .ok ⟨(ofValues type entries).header.insert Message.syncKey (.ofNat sync),
        .ofList entries⟩ := by
  rw [framed, message_ofValues]
  rfl

theorem framed_named (h : ¬r.Plain) (s : Snapshot) (sync : Nat) :
    r.framed (some s) sync =
      match fill s r.arguments .empty with
      | .ok body =>
        .ok ⟨(r.header.insert Message.schemaVersionKey (.ofNat s.version)).insert Message.syncKey
          (.ofNat sync), body⟩
      | .error e => .error (.schema e) := by
  simp only [framed, message, isSchemaBound_iff.2 h, if_true]
  cases fill s r.arguments .empty <;> rfl

theorem framed_named_eq_error_iff (h : ¬r.Plain) {sync : Nat} {e : ClientError} :
    r.framed (some s) sync = .error e ↔ ∃ lost, e = .schema lost ∧ r.FailsFirst s lost := by
  simp only [← fill_eq_error_iff, framed_named h]
  cases fill s r.arguments .empty <;> simp [eq_comm]

theorem framed_named_eq_ok_iff (h : ¬r.Plain) {sync : Nat} {m : Message} :
    r.framed (some s) sync = .ok m ↔ ∃ r' m', r.Becomes s r' ∧ r'.framed none sync = .ok m' ∧
      m.body = m'.body ∧ m.header.entries =
        m'.header.entries ++ [(Message.schemaVersionKey, .ofNat s.version)] := by
  rw [framed_named h]
  constructor
  · intro hm
    cases hfill : fill s r.arguments .empty with
    | error e =>
      rw [hfill] at hm
      cases hm
    | ok body =>
      rw [hfill] at hm
      obtain ⟨entries, rfl, hentries⟩ := fill_eq_ok_iff.1 hfill
      cases hm
      exact ⟨_, _, becomes_iff.2 ⟨entries, rfl, hentries⟩, framed_ofValues .., rfl, rfl⟩
  · rintro ⟨r', m', hbecomes, hm', hbody, hheader⟩
    obtain ⟨entries, rfl, hentries⟩ := becomes_iff.1 hbecomes
    rw [framed_ofValues] at hm'
    cases hm'
    -- The version comes behind the other two entries, so that the header is its entries in order.
    obtain ⟨⟨header, hsorted⟩, body⟩ := m
    obtain rfl : body = .ofList entries := hbody
    rw [fill_eq_ok_iff.2 ⟨entries, rfl, hentries⟩]
    simp only [Except.ok.injEq, Message.mk.injEq, and_true]
    rw [Fields.mk.injEq]
    exact hheader.symm

/-- The submission of what cannot be framed ends at once; nothing is sent or put on the table. -/
theorem submit_of_unframed {κ : Type} {p : Pipeline κ} {sub : Submission κ} {e : ClientError}
    (h : Pipeline.frameOf sub.message p.nextSync = .error e) (now : Nat) (fault : Option String) :
    p.submit now fault sub =
      ({ p with nextSync := p.nextSync + 1 }, .ended sub.tag (.error (p.cell.terminal.getD e)),
        p.nextSync) := by
  simp only [Pipeline.submit, h]
  cases p.cell.terminal <;> rfl

theorem frameOf_message (r : Request) (catalog : Option Snapshot) (sync : Nat) :
    Pipeline.frameOf (r.message catalog) sync =
      (r.framed catalog sync).bind fun m => (Frame.encode m).mapError .codec := by
  rw [framed]
  cases r.message catalog with
  | error e => rfl
  | ok m =>
    simp only [Pipeline.frameOf, Except.map, Except.bind]
    cases Frame.encode (m.withSync sync) <;> rfl

/-- A request of values is framed as they are. One with names is framed as the request with the
values that the catalog gives for them and with the version of that catalog, or fails with the
first name that it does not have. What is not framed is not sent. -/
theorem framed_correct {κ : Type} (r : Request) (sync : Nat) :
    (r.Plain → ∀ catalog, ∃ m, r.framed catalog sync = .ok m ∧ r.Holds m.body ∧
      m.header.entries = [(Message.codeKey, .ofNat r.type.code), (Message.syncKey, .ofNat sync)]) ∧
    (¬r.Plain → r.framed none sync = .error (.schema .unavailable)) ∧
    (¬r.Plain → ∀ s,
      (∀ e, r.framed (some s) sync = .error e ↔ ∃ lost, e = .schema lost ∧ r.FailsFirst s lost) ∧
      ∀ m, r.framed (some s) sync = .ok m ↔ ∃ r' m', r.Becomes s r' ∧
        r'.framed none sync = .ok m' ∧ m.body = m'.body ∧ m.header.entries =
          m'.header.entries ++ [(Message.schemaVersionKey, .ofNat s.version)]) ∧
    ∀ catalog, Pipeline.frameOf (r.message catalog) sync =
        ((r.framed catalog sync).bind fun m => (Frame.encode m).mapError .codec) ∧
      ∀ e (p : Pipeline κ) now fault timeout tag, p.nextSync = sync →
        Pipeline.frameOf (r.message catalog) sync = .error e →
        p.submit now fault ⟨r.type, r.message catalog, timeout, tag⟩ =
          ({ p with nextSync := sync + 1 }, .ended tag (.error (p.cell.terminal.getD e)),
            sync) := by
  refine ⟨fun hplain catalog => ?_, fun hnamed => ?_, fun hnamed s => ?_, fun catalog => ?_⟩
  · obtain ⟨entries, hr⟩ := exists_ofValues hplain
    rw [hr, framed_ofValues]
    exact ⟨_, rfl, holds_ofValues r.type entries, rfl⟩
  · simp only [framed, message, isSchemaBound_iff.2 hnamed, if_true]
    rfl
  · exact ⟨fun e => framed_named_eq_error_iff hnamed, fun m => framed_named_eq_ok_iff hnamed⟩
  · refine ⟨frameOf_message .., fun e p now fault timeout tag hsync hframe => ?_⟩
    subst hsync
    exact submit_of_unframed hframe now fault

/-- A key that is given twice, once through the name of the space and once through its id; a name
that the catalog does not have in front of another one; and a submission without a catalog. -/
theorem framed_of_users :
    let space : Space := ⟨512, "users", "memtx", [],
      [⟨0, "primary", "tree", true, []⟩, ⟨1, "by_email", "tree", false, []⟩]⟩
    let s : Snapshot := ⟨7, [("users", space)], [(512, "users")]⟩
    let r : Request := ⟨.select, [(indexKey, .index (.named "users") "primary"),
      (indexKey, .index (.id 512) "by_email"), (limitKey, .value (.int 10))]⟩
    let lost : Request := ⟨.select, [(indexKey, .index (.id 512) "by_name"),
      (spaceKey, .space "nowhere")]⟩
    let values := ofValues .select [(indexKey, .int 0), (indexKey, .int 1), (limitKey, .int 10)]
    let p : Pipeline Unit := .create ⟨none, 1000, 64, Settings.half, 1024⟩
    (∃ m, r.framed (some s) 1 = .ok m ∧ values.Holds m.body ∧
      m.header.entries = [(Message.codeKey, .int 1), (Message.syncKey, .int 1),
        (Message.schemaVersionKey, .int 7)]) ∧
    lost.framed (some s) 1 = .error (.schema (.indexNotFound "users" "by_name")) ∧
    (p.submit 0 none ⟨.select, r.message none, none, ()⟩).2.1.written = [] := by
  intro space s r lost values p
  obtain ⟨-, hunavailable, hframed, hsubmit⟩ := @framed_correct Unit r 1
  have hnamed : ¬r.Plain := by
    intro h
    obtain ⟨v, hv⟩ := h _ List.mem_cons_self
    cases hv
  have hlost : ¬lost.Plain := by
    intro h
    obtain ⟨v, hv⟩ := h _ List.mem_cons_self
    cases hv
  refine ⟨?_, ?_, ?_⟩
  · obtain ⟨m', hm', hholds, hheader⟩ :=
      (@framed_correct Unit values 1).1 (plain_ofValues _ _) none
    have hbecomes : r.Becomes s values :=
      ⟨rfl, .cons ⟨rfl, _, rfl, resolve_eq_ok_iff.1 rfl⟩
        (.cons ⟨rfl, _, rfl, resolve_eq_ok_iff.1 rfl⟩ (.cons ⟨rfl, _, rfl, .value _⟩ .nil))⟩
    have hsorted : (m'.header.entries ++ [(Message.schemaVersionKey, Value.ofNat 7)]).Pairwise
        fun x y => x.1 < y.1 := by
      rw [hheader]
      decide
    refine ⟨⟨⟨_, hsorted⟩, m'.body⟩,
      ((hframed hnamed s).2 _).2 ⟨values, m', hbecomes, hm', rfl, rfl⟩, hholds, ?_⟩
    simp only [hheader]
    rfl
  · obtain ⟨-, -, hframed, -⟩ := @framed_correct Unit lost 1
    exact ((hframed hlost s).1 _).2
      ⟨_, rfl, [], _, _, rfl, nofun, resolve_eq_error_iff.1 rfl⟩
  · have hframe : Pipeline.frameOf (r.message none) 1 = .error (.schema .unavailable) := by
      rw [(hsubmit none).1, hunavailable hnamed]
      rfl
    rw [(hsubmit none).2 _ p 0 none none () rfl hframe]
    rfl

end Request

end TupleClient
