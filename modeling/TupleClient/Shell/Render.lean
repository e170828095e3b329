import TupleClient.Response

/-!
Responses as the shell shows them.
-/
namespace TupleClient.Shell

def lines (values : List Value) : String := "\n".intercalate (values.map Value.display)

def renderSql : SqlResult → String
  | .changed count [] => s!"{count} rows affected"
  | .changed count ids => s!"{count} rows affected, new ids {(Value.array ids).display}"
  | .rows columns rows =>
    "\n".intercalate (" | ".intercalate (columns.map Column.name) ::
      rows.map fun row => " | ".intercalate (row.map Value.display))

def renderData (r : Response) : String :=
  match r.data? with
  | some (.array []) => "(empty)"
  | some (.array items) => lines items
  | some other => other.display
  | none => "ok"

/-- The outcome of an SQL statement where there is one, otherwise the data, a tuple on a line. -/
def render (r : Response) : String :=
  match r.type, r.sqlResult with
  | some t, .ok result => if t.isSql then renderSql result else renderData r
  | _, _ => renderData r

end TupleClient.Shell
