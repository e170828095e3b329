import TupleClient.Shell.Prompt
import TupleClient.Shell.Render

/-!
A session of the shell: the answers of the prompt one after another, and what each leads to.
-/
namespace TupleClient.Shell

/-- Why a session ends. Only a line that is no text is a failure. -/
inductive Stop where
  | exit
  | endOfInput
  | notText
deriving DecidableEq, Inhabited

inductive Act where
  | showSchema
  | run (r : Request)
  | complain (e : CommandError)

def react : Answer → Act ⊕ Stop
  | .command .exit => .inr .exit
  | .command .schema => .inl .showSchema
  | .command (.request r) => .inl (.run r)
  | .invalid e => .inl (.complain e)
  | .notText => .inr .notText
  | .endOfInput => .inr .endOfInput

variable {m : Type → Type} [Monad m]

def Act.perform (t : Terminal m) : Act → m Unit
  | .showSchema => do t.put ((← t.catalog).render ++ "\n")
  | .run r => do
    match ← t.execute r with
    | .ok response => t.put (render response ++ "\n")
    | .error e => t.complain s!"error: {e.message}\n"
  | .complain e => t.complain s!"error: {e.message}\n"

def turn (t : Terminal m) : m (Unit ⊕ Stop) := do
  match react (← prompt t) with
  | .inr stop => return .inr stop
  | .inl act =>
    act.perform t
    return .inl ()

/-- One line after another, up to the first that ends the session. -/
def session (t : Terminal m) : m Stop := repeatM (fun _ => turn t) ()

end TupleClient.Shell
