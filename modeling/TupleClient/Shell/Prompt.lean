import TupleClient.Catalog.Snapshot
import TupleClient.Promise
import TupleClient.Shell.Command

/-!
The prompt: a sign that the shell is ready, and what the line behind it says.
-/
namespace TupleClient.Shell

/-- What a shell works with: the lines it reads, the places for what it shows and for what it
complains of, and the client. -/
structure Terminal (m : Type → Type) where
  /-- The next line with its line end if it has one; nothing at the end of the input. -/
  line : m Bytes
  put : String → m Unit
  complain : String → m Unit
  catalog : m Catalog.Snapshot
  execute : Request → m Outcome

def promptText : String := "> "

inductive Answer where
  | command (c : Command)
  | invalid (e : CommandError)
  | notText
  | endOfInput

def notTextMessage : String := "terminal error: stream did not contain valid UTF-8"

def Answer.ofLine (line : Bytes) : Answer :=
  if line.isEmpty then .endOfInput
  else
    match Bytes.toText? line with
    | none => .notText
    | some text =>
      match Command.parse text with
      | .ok c => .command c
      | .error e => .invalid e

def prompt {m : Type → Type} [Monad m] (t : Terminal m) : m Answer := do
  t.put promptText
  return .ofLine (← t.line)

/-- The first line of the input, with its line end if it has one, and the rest. -/
def splitLine (input : Bytes) : Bytes × Bytes :=
  let behind := input.dropWhile (· != 0x0a)
  (input.takeWhile (· != 0x0a) ++ behind.take 1, behind.drop 1)

theorem splitLine_append (input : Bytes) : (splitLine input).1 ++ (splitLine input).2 = input := by
  simp only [splitLine, List.append_assoc, List.take_append_drop,
    List.takeWhile_append_dropWhile]

theorem length_splitLine {input line rest : Bytes} (h : splitLine input = (line, rest))
    (hne : line ≠ []) : rest.length < input.length := by
  have hsum := congrArg List.length (splitLine_append input)
  have hline := List.length_pos_iff.2 hne
  rw [List.length_append] at hsum
  simp only [h] at hsum
  omega

def linesOf (input : Bytes) : List Bytes :=
  match _split : splitLine input with
  | ([], _) => []
  | (b :: line, rest) => (b :: line) :: linesOf rest
termination_by input.length
decreasing_by exact length_splitLine _split (List.cons_ne_nil b line)

def answers (input : Bytes) : List Answer := (linesOf input).map .ofLine ++ [.endOfInput]

end TupleClient.Shell
