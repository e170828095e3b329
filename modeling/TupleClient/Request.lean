import TupleClient.Catalog.Snapshot
import TupleClient.Message

/-!
Requests: a type and arguments, of which spaces and indexes may be given by name.
-/
namespace TupleClient

inductive RequestType where
  | select
  | insert
  | replace
  | update
  | delete
  | call16
  | auth
  | eval
  | upsert
  | call
  | execute
  | nop
  | prepare
  | ping
deriving DecidableEq

namespace RequestType

def code : RequestType → Nat
  | select => 1
  | insert => 2
  | replace => 3
  | update => 4
  | delete => 5
  | call16 => 6
  | auth => 7
  | eval => 8
  | upsert => 9
  | call => 10
  | execute => 11
  | nop => 12
  | prepare => 13
  | ping => 64

def all : List RequestType :=
  [select, insert, replace, update, delete, call16, auth, eval, upsert, call, execute, nop,
    prepare, ping]

def name : RequestType → String
  | select => "Select"
  | insert => "Insert"
  | replace => "Replace"
  | update => "Update"
  | delete => "Delete"
  | call16 => "Call16"
  | auth => "Auth"
  | eval => "Eval"
  | upsert => "Upsert"
  | call => "Call"
  | execute => "Execute"
  | nop => "Nop"
  | prepare => "Prepare"
  | ping => "Ping"

def ofCode? (code : Nat) : Option RequestType := all.find? (·.code == code)

def isSql : RequestType → Bool
  | execute => true
  | prepare => true
  | _ => false

end RequestType

inductive Direction where
  | eq
  | req
  | all
  | lt
  | le
  | ge
  | gt
deriving DecidableEq

namespace Direction

def code : Direction → Nat
  | eq => 0
  | req => 1
  | all => 2
  | lt => 3
  | le => 4
  | ge => 5
  | gt => 6

def name : Direction → String
  | eq => "Eq"
  | req => "Req"
  | all => "All"
  | lt => "Lt"
  | le => "Le"
  | ge => "Ge"
  | gt => "Gt"

def values : List Direction := [eq, req, all, lt, le, ge, gt]

end Direction

inductive Target where
  | id (n : Nat)
  | named (name : String)
deriving DecidableEq

inductive Argument where
  | value (v : Value)
  | space (name : String)
  | index (space : Target) (name : String)

structure Request where
  type : RequestType
  arguments : List (UInt8 × Argument)

namespace Request

def spaceKey : UInt8 := 0x10

def indexKey : UInt8 := 0x11

def limitKey : UInt8 := 0x12

def offsetKey : UInt8 := 0x13

def directionKey : UInt8 := 0x14

def keyKey : UInt8 := 0x20

def tupleKey : UInt8 := 0x21

def functionKey : UInt8 := 0x22

def userKey : UInt8 := 0x23

def expressionKey : UInt8 := 0x27

def operationsKey : UInt8 := 0x28

def sqlKey : UInt8 := 0x40

def bindingsKey : UInt8 := 0x41

def statementKey : UInt8 := 0x43

def withValue (r : Request) (key : UInt8) (v : Value) : Request :=
  { r with arguments := r.arguments ++ [(key, .value v)] }

def withSpace (r : Request) (space : Target) : Request :=
  let argument : Argument :=
    match space with
    | .id n => .value (.ofNat n)
    | .named name => .space name
  { r with arguments := r.arguments ++ [(spaceKey, argument)] }

def withIndex (r : Request) (space index : Target) : Request :=
  let argument : Argument :=
    match index with
    | .id n => .value (.ofNat n)
    | .named name => .index space name
  { r with arguments := r.arguments ++ [(indexKey, argument)] }

def ofType (type : RequestType) : Request := ⟨type, []⟩

def ping : Request := ofType .ping

def select (space index : Target) (key : List Value) (offset limit : Nat)
    (direction : Direction) : Request :=
  ((((((ofType .select).withSpace space).withIndex space index).withValue keyKey
    (.array key)).withValue offsetKey (.ofNat offset)).withValue limitKey
    (.ofNat limit)).withValue directionKey (.ofNat direction.code)

def insert (space : Target) (tuple : List Value) : Request :=
  ((ofType .insert).withSpace space).withValue tupleKey (.array tuple)

def replace (space : Target) (tuple : List Value) : Request :=
  ((ofType .replace).withSpace space).withValue tupleKey (.array tuple)

def update (space index : Target) (key operations : List Value) : Request :=
  ((((ofType .update).withSpace space).withIndex space index).withValue keyKey
    (.array key)).withValue tupleKey (.array operations)

def upsert (space : Target) (tuple operations : List Value) : Request :=
  (((ofType .upsert).withSpace space).withValue tupleKey (.array tuple)).withValue operationsKey
    (.array operations)

def delete (space index : Target) (key : List Value) : Request :=
  (((ofType .delete).withSpace space).withIndex space index).withValue keyKey (.array key)

def call (function : String) (arguments : List Value) : Request :=
  ((ofType .call).withValue functionKey (.text function)).withValue tupleKey (.array arguments)

/-- A call whose results come as tuples, whatever the function returns. -/
def call16 (function : String) (arguments : List Value) : Request :=
  ((ofType .call16).withValue functionKey (.text function)).withValue tupleKey (.array arguments)

def eval (expression : String) (arguments : List Value) : Request :=
  ((ofType .eval).withValue expressionKey (.text expression)).withValue tupleKey
    (.array arguments)

def execute (sql : String) (bindings : List Value) : Request :=
  ((ofType .execute).withValue sqlKey (.text sql)).withValue bindingsKey (.array bindings)

def executePrepared (statement : Nat) (bindings : List Value) : Request :=
  ((ofType .execute).withValue statementKey (.ofNat statement)).withValue bindingsKey
    (.array bindings)

def prepare (sql : String) : Request := (ofType .prepare).withValue sqlKey (.text sql)

def auth (user mechanism : String) (proof : Bytes) : Request :=
  ((ofType .auth).withValue userKey (.text user)).withValue tupleKey
    (.array [.text mechanism, .binary proof])

/-- Whether a name is among the arguments, so that the catalog is needed. -/
def isSchemaBound (r : Request) : Bool :=
  r.arguments.any fun (_, a) =>
    match a with
    | .value _ => false
    | _ => true

def spaceNames (r : Request) : List String :=
  r.arguments.filterMap fun (_, a) =>
    match a with
    | .space name => some name
    | .index (.named name) _ => some name
    | _ => none

def resolve (catalog : Catalog.Snapshot) : Argument → Except SchemaError Value
  | .value v => .ok v
  | .space name => do
    let space ← catalog.space name
    .ok (.ofNat space.id)
  | .index target name => do
    let space ←
      match target with
      | .id n => catalog.spaceById n
      | .named name => catalog.space name
    let index ← space.index name
    .ok (.ofNat index.id)

/-- The body with the arguments in order; of arguments with one key the last one holds. -/
def fill (catalog : Catalog.Snapshot) :
    List (UInt8 × Argument) → Fields → Except SchemaError Fields
  | [], body => .ok body
  | (key, a) :: rest, body => do
    let v ← resolve catalog a
    fill catalog rest (body.insert key v)

def header (r : Request) : Fields := Fields.empty.insert Message.codeKey (.ofNat r.type.code)

/-- The message of a request. With a name among the arguments it takes a catalog, and says at which
version the names were looked up. -/
def message (r : Request) (catalog : Option Catalog.Snapshot) : Except ClientError Message :=
  if r.isSchemaBound then
    match catalog with
    | none => .error (.schema .unavailable)
    | some snapshot =>
      match fill snapshot r.arguments .empty with
      | .ok body =>
        .ok ⟨r.header.insert Message.schemaVersionKey (.ofNat snapshot.version), body⟩
      | .error e => .error (.schema e)
  else
    match fill .empty r.arguments .empty with
    | .ok body => .ok ⟨r.header, body⟩
    | .error e => .error (.schema e)

end Request
end TupleClient
