import TupleClient.Error
import TupleClient.Value.Display

/-!
The rows of a server's catalog: one for each space and one for each index.
-/
namespace TupleClient.Catalog

open Wire

structure Field where
  name : String
  type : String

/-- The tuple field that an index is over, counted from 0. -/
structure Part where
  field : Nat
  type : String

structure Index where
  id : Nat
  name : String
  kind : String
  unique : Bool
  parts : List Part

/-- A space with the format of its tuples and its indexes, these by ascending id. -/
structure Space where
  id : Nat
  name : String
  engine : String
  fields : List Field
  indexes : List Index

namespace Space

def index? (s : Space) (name : String) : Option Index := s.indexes.find? (·.name == name)

def index (s : Space) (name : String) : Except SchemaError Index :=
  match s.index? name with
  | some i => .ok i
  | none => .error (.indexNotFound s.name name)

def indexById? (s : Space) (id : Nat) : Option Index := s.indexes.find? (·.id == id)

def fieldPosition? (s : Space) (name : String) : Option Nat := s.fields.findIdx? (·.name == name)

end Space

def unexpected {α : Type} (expected : String) (found : Value) : Except CodecError α :=
  .error (.unexpected expected found.display)

def column (row : List Value) (whole : Value) (i : Nat) : Except CodecError Value :=
  match row[i]? with
  | some v => .ok v
  | none => unexpected "longer catalog tuple" whole

def idColumn (row : List Value) (whole : Value) (i : Nat) : Except CodecError Nat := do
  let v ← column row whole i
  match v.nat32? with
  | some n => .ok n
  | none => unexpected "catalog id" v

def nameColumn (row : List Value) (whole : Value) (i : Nat) : Except CodecError String := do
  let v ← column row whole i
  match v.text? with
  | some s => .ok s
  | none => unexpected "catalog name" v

def Field.ofValue (v : Value) : Field :=
  { name := ((v.get? "name").bind Value.text?).getD ""
    type := ((v.get? "type").bind Value.text?).getD "any" }

/-- The fields that a format lists; no format says nothing of them. -/
def fieldsOf : Option Value → List Field
  | some (.array format) => format.map Field.ofValue
  | _ => []

/-- Reads the row of a space: id, owner, name, engine, field count, flags, format. -/
def Space.ofRow (row : Value) : Except CodecError Space :=
  match row with
  | .array columns => do
    let id ← idColumn columns row 0
    let name ← nameColumn columns row 2
    let engine ← nameColumn columns row 3
    .ok ⟨id, name, engine, fieldsOf columns[6]?, []⟩
  | _ => unexpected "space tuple" row

/-- A part is the pair of field number and type, or a map with both; the type may be missing. -/
def Part.ofValue (v : Value) : Except CodecError Part :=
  let build (field type : Option Value) : Except CodecError Part :=
    match field.bind Value.nat32? with
    | some n => .ok ⟨n, (type.bind Value.text?).getD "any"⟩
    | none => unexpected "index part field number" v
  match v with
  | .map _ => build (v.get? "field") (v.get? "type")
  | .array items => build items[0]? items[1]?
  | _ => unexpected "index part" v

def Part.ofValues : List Value → Except CodecError (List Part)
  | [] => .ok []
  | v :: vs => do
    let part ← Part.ofValue v
    let parts ← Part.ofValues vs
    .ok (part :: parts)

def partsOf : Option Value → Except CodecError (List Part)
  | some (.array parts) => Part.ofValues parts
  | _ => .ok []

/-- Reads the row of an index: space id, index id, name, kind, options, parts. -/
def Index.ofRow (row : Value) : Except CodecError (Nat × Index) :=
  match row with
  | .array columns => do
    let unique := ((columns[4]?.bind (·.get? "unique")).bind Value.bool?).getD false
    let parts ← partsOf columns[5]?
    let id ← idColumn columns row 1
    let name ← nameColumn columns row 2
    let kind ← nameColumn columns row 3
    let space ← idColumn columns row 0
    .ok (space, ⟨id, name, kind, unique, parts⟩)
  | _ => unexpected "index tuple" row

end TupleClient.Catalog
