import TupleClient.Request
import TupleClient.Shell.Literal

/-!
Commands: a word in either case, and what it takes.
-/
namespace TupleClient.Shell

inductive Command where
  | exit
  | schema
  | request (r : Request)

inductive CommandError where
  | unrecognized (line : String)
  | invalidArguments (command reason : String)
  | unterminatedText
  | empty
deriving DecidableEq

def CommandError.message : CommandError → String
  | .unrecognized line => s!"unrecognized command '{line}'"
  | .invalidArguments command reason => s!"invalid '{command}' command, {reason}"
  | .unterminatedText => "unterminated string literal"
  | .empty => "no command provided"

def selectLimit : Nat := 100

def valuesOf (line : List Char) : Except CommandError (List Value) :=
  match literals line with
  | some values => .ok values
  | none => .error .unterminatedText

def required (word rest : List Char) (what : String) : Except CommandError String :=
  if rest.isEmpty then .error (.invalidArguments (String.ofList word) ("requires " ++ what))
  else .ok (String.ofList rest)

def spaceAndValues (word rest : List Char) : Except CommandError (Target × List Value) :=
  match Text.splitWord rest with
  | ([], _) =>
    let command := String.ofList word
    .error (.invalidArguments command s!"requires a space name. Example: {command} users 1")
  | (space, line) => do
    let values ← valuesOf line
    .ok (.named (String.ofList space), values)

def requestOf (word rest : List Char) (line : List Char) : Except CommandError Request :=
  match String.ofList (word.map Char.toLower) with
  | ".ping" => .ok .ping
  | "eval" => do
    let expression ← required word rest "an expression. Example: eval return box.info.version"
    .ok (.eval expression [])
  | "sql" => do
    let statement ← required word rest "a statement. Example: sql SELECT 1"
    .ok (.execute statement [])
  | "call" => do
    match ← valuesOf rest with
    | .text function :: arguments => .ok (.call function arguments)
    | _ =>
      .error (.invalidArguments (String.ofList word)
        "requires a function name. Example: call f 1 2")
  | "select" => do
    let (space, key) ← spaceAndValues word rest
    .ok (.select space (.id 0) key 0 selectLimit (if key.isEmpty then .all else .eq))
  | "delete" => do
    let (space, key) ← spaceAndValues word rest
    if key.isEmpty then
      .error (.invalidArguments (String.ofList word) "requires a key. Example: delete users 1")
    else .ok (.delete space (.id 0) key)
  | "insert" => do
    let (space, tuple) ← spaceAndValues word rest
    .ok (.insert space tuple)
  | "replace" => do
    let (space, tuple) ← spaceAndValues word rest
    .ok (.replace space tuple)
  | _ => .error (.unrecognized (String.ofList line))

def Command.parse (text : String) : Except CommandError Command :=
  let line := Text.trim text.toList
  let (word, behind) := Text.splitWord line
  let rest := Text.trim behind
  match String.ofList (word.map Char.toLower) with
  | "" => .error .empty
  | ".exit" => .ok .exit
  | ".schema" => .ok .schema
  | _ => do
    let r ← requestOf word rest line
    .ok (.request r)

end TupleClient.Shell
