import TupleClient.Catalog.Row

/-!
The catalog at one version: its spaces, found by name and by id.
-/
namespace TupleClient.Catalog

open Wire

/-- `spaces` has each name once; `names` gives the name last seen with an id first. -/
structure Snapshot where
  version : Nat
  spaces : List (String × Space)
  names : List (Nat × String)

namespace Snapshot

def empty : Snapshot := ⟨0, [], []⟩

instance : Inhabited Snapshot := ⟨empty⟩

def space? (s : Snapshot) (name : String) : Option Space := s.spaces.lookup name

def contains (s : Snapshot) (name : String) : Bool := (s.space? name).isSome

def space (s : Snapshot) (name : String) : Except SchemaError Space :=
  match s.space? name with
  | some found => .ok found
  | none => .error (.spaceNotFound name)

def spaceById (s : Snapshot) (id : Nat) : Except SchemaError Space :=
  match (s.names.lookup id).bind s.space? with
  | some found => .ok found
  | none => .error (.spaceNotFound s!"#{id}")

def size (s : Snapshot) : Nat := s.spaces.length

def insert (s : Snapshot) (space : Space) : Snapshot :=
  { s with
    spaces := (space.name, space) :: s.spaces.filter (fun e => e.1 != space.name)
    names := (space.id, space.name) :: s.names }

def sorted (s : Snapshot) : List Space :=
  (s.spaces.map Prod.snd).mergeSort (fun a b => a.name ≤ b.name)

def indexRows : List Value → Except CodecError (List (Nat × Index))
  | [] => .ok []
  | row :: rows => do
    let index ← Index.ofRow row
    let more ← indexRows rows
    .ok (index :: more)

/-- Adds the spaces of the rows one by one. A space takes the indexes of its id, so that a second
space with that id has none. -/
def addSpaces (s : Snapshot) (indexes : List (Nat × Index)) :
    List Value → Except CodecError Snapshot
  | [] => .ok s
  | row :: rows => do
    let space ← Space.ofRow row
    let own := (indexes.filter (·.1 == space.id)).map Prod.snd
    let whole := { space with indexes := own.mergeSort (fun a b => a.id ≤ b.id) }
    addSpaces (s.insert whole) (indexes.filter (·.1 != space.id)) rows

/-- Joins the rows of spaces with the rows of indexes, which are read first. -/
def join (version : Nat) (spaces indexes : List Value) : Except CodecError Snapshot := do
  let indexes ← indexRows indexes
  addSpaces ⟨version, [], []⟩ indexes spaces

def render (s : Snapshot) : String :=
  let line (space : Space) : String :=
    s!"{space.name} (#{space.id}) [" ++ ", ".intercalate (space.indexes.map (·.name)) ++ "]"
  "\n".intercalate (s!"schema version {s.version}" :: s.sorted.map line)

end Snapshot
end TupleClient.Catalog
