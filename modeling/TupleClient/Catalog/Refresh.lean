import TupleClient.Response

/-!
Keeping the catalog: two reads that have to agree on the version, and a cache that never goes back.
-/
namespace TupleClient.Catalog

open Wire

/-- The two parts of the catalog, each read by itself. -/
inductive View where
  | spaces
  | indexes
deriving DecidableEq

def View.space : View → Nat
  | .spaces => 281
  | .indexes => 289

def View.request (v : View) : Request :=
  .select (.id v.space) (.id 0) [] 0 maxUnsigned32 .all

/-- The snapshot that names are looked up in, and how often a refresh may try. -/
structure Cache where
  attempts : Nat
  current : Snapshot

namespace Cache

def create (attempts : Nat) : Cache := ⟨max attempts 1, .empty⟩

def install (c : Cache) (s : Snapshot) : Cache :=
  if c.current.version ≤ s.version then { c with current := s } else c

def missing? (c : Cache) (names : List String) : Option String :=
  names.find? fun name => !c.current.contains name

end Cache

/-- A refresh on its way: the pairs of reads that are left, this one included, and the first answer
of the pair once it is there. -/
structure Refresh where
  limit : Nat
  left : Nat
  spaces : Option Response

namespace Refresh

def start (c : Cache) : Refresh := ⟨c.attempts, c.attempts, none⟩

def view (r : Refresh) : View :=
  match r.spaces with
  | none => .spaces
  | some _ => .indexes

def versionOf (r : Response) : Nat := r.schemaVersion.getD 0

def join (spaces indexes : Response) : Except CodecError Snapshot := do
  let spaceRows ← spaces.tuples
  let indexRows ← indexes.tuples
  Snapshot.join (versionOf spaces) spaceRows indexRows

/-- What an answer leads to: another read, a snapshot, or the end. Two answers of different
versions are thrown away and both reads made again. -/
def answered (r : Refresh) (answer : Except ClientError Response) :
    Refresh ⊕ Except ClientError Snapshot :=
  match answer with
  | .error e => .inr (.error e)
  | .ok response =>
    match r.spaces with
    | none => .inl { r with spaces := some response }
    | some spaces =>
      if versionOf spaces = versionOf response then
        match join spaces response with
        | .ok s => .inr (.ok s)
        | .error e => .inr (.error (.codec e))
      else if r.left ≤ 1 then .inr (.error (.schema (.inconsistent r.limit)))
      else .inl { r with left := r.left - 1, spaces := none }

end Refresh

def Cache.refreshed (c : Cache) (result : Except ClientError Snapshot) :
    Cache × Except ClientError Nat :=
  match result with
  | .ok s => (c.install s, .ok (c.install s).current.version)
  | .error e => (c, .error e)

end TupleClient.Catalog
