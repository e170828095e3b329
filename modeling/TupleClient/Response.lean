import TupleClient.Request
import TupleClient.Value.Display

/-!
Replies: a result or the server's error, under the number of the request.
-/
namespace TupleClient

open Wire

structure Response where
  sync : Nat
  schemaVersion : Option Nat
  type : Option RequestType
  body : Fields

structure Column where
  name : String
  type : String

/-- What an SQL statement did: rows changed, with the ids that were made up for new ones, or rows
found. -/
inductive SqlResult where
  | changed (count : Nat) (newIds : List Value)
  | rows (columns : List Column) (rows : List (List Value))

namespace Response

def dataKey : UInt8 := 0x30

def errorTextKey : UInt8 := 0x31

def metadataKey : UInt8 := 0x32

def sqlInfoKey : UInt8 := 0x42

def errorStackKey : UInt8 := 0x52

/-- The bit that marks a status as an error. -/
def errorFlag : Nat := 0x8000

def clearErrorFlag (code : Nat) : Nat :=
  if code / errorFlag % 2 = 1 then code - errorFlag else code

def stackText? (stack : Value) : Option String := do
  let entries ← stack.map?
  let frames ← Value.getNat? entries 0
  let first ← (← frames.array?).head?
  let text ← Value.getNat? (← first.map?) 3
  text.text?

/-- The plain text of an error comes before the one in the stack. -/
def serverError (status : Nat) (body : Fields) : ServerError :=
  let code := clearErrorFlag status
  let text :=
    match (body.get? errorTextKey).bind Value.text? with
    | some s => s
    | none => ((body.get? errorStackKey).bind stackText?).getD s!"server error {code}"
  ⟨code, text⟩

def ofMessage (m : Message) (type : Option RequestType) :
    Except ConnectionError (Nat × Except ServerError Response) :=
  match m.sync? with
  | none => .error (.violation "response without sync id")
  | some sync =>
    match m.code? with
    | none => .error (.violation "response without status code")
    | some 0 => .ok (sync, .ok ⟨sync, m.schemaVersion?, type, m.body⟩)
    | some status => .ok (sync, .error (serverError status m.body))

def data? (r : Response) : Option Value := r.body.get? dataKey

/-- The data, nil where there is none. -/
def data (r : Response) : Value := r.data?.getD .nil

def unexpected {α : Type} (expected : String) (found : Value) : Except CodecError α :=
  .error (.unexpected expected found.display)

def tuples (r : Response) : Except CodecError (List Value) :=
  match r.data with
  | .array items => .ok items
  | .nil => .ok []
  | other => unexpected "array of tuples" other

/-- Counts and ids of a changing statement; of entries with one key the last one holds. -/
def changes (count : Nat) (ids : List Value) :
    List (Value × Value) → Except CodecError SqlResult
  | [] => .ok (.changed count ids)
  | (k, v) :: rest =>
    match k.byte? with
    | some 0 =>
      match v.nat64? with
      | some n => changes n ids rest
      | none => unexpected "row count" v
    | some 1 => changes count (v.array?.getD []) rest
    | _ => changes count ids rest

def columnOf (v : Value) : Except CodecError Column :=
  match v with
  | .map entries =>
    match (Value.getNat? entries 0).bind Value.text? with
    | some name => .ok ⟨name, ((Value.getNat? entries 1).bind Value.text?).getD ""⟩
    | none => unexpected "column name" v
  | _ => unexpected "column metadata" v

def columnsOf (columns : List Column) : List Value → Except CodecError (List Column)
  | [] => .ok columns.reverse
  | v :: vs => do
    let column ← columnOf v
    columnsOf (column :: columns) vs

def rowsOf (rows : List (List Value)) : List Value → Except CodecError (List (List Value))
  | [] => .ok rows.reverse
  | .array row :: vs => rowsOf (row :: rows) vs
  | v :: _ => unexpected "row array" v

/-- The outcome of an SQL statement. Information on changes comes before a description of
columns. -/
def sqlResult (r : Response) : Except CodecError SqlResult :=
  match r.body.get? sqlInfoKey with
  | some (.map entries) => changes 0 [] entries
  | some info => unexpected "sql info map" info
  | none =>
    match r.body.get? metadataKey with
    | some (.array described) => do
      let columns ← columnsOf [] described
      let rows ←
        match r.data? with
        | some (.array rows) => rowsOf [] rows
        | some other => unexpected "row set" other
        | none => .ok []
      .ok (.rows columns rows)
    | some metadata => unexpected "metadata array" metadata
    | none => .error (.unexpected "sql info or metadata" "neither")

end Response
end TupleClient
