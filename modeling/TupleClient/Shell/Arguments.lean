import TupleClient.Decimal.Reading
import TupleClient.Settings

/-!
The command line of the shell: addresses, and options before, between and behind them.
-/
namespace TupleClient.Shell

inductive Choice where
  | user
  | password
  | timeout
  | discovery
deriving DecidableEq

namespace Choice

def long : Choice → String
  | user => "user"
  | password => "password"
  | timeout => "timeout"
  | discovery => "discovery"

def short? : Choice → Option Char
  | user => some 'u'
  | password => some 'p'
  | timeout => some 't'
  | discovery => none

def placeholder : Choice → String
  | user => "--user <USER>"
  | password => "--password <PASSWORD>"
  | timeout => "--timeout <TIMEOUT>"
  | discovery => "--discovery <DISCOVERY>"

def all : List Choice := [user, password, timeout, discovery]

end Choice

inductive UsageError where
  | unexpected (argument : String)
  | valueMissing (choice : Choice)
  | repeated (choice : Choice)
  | valueUnwanted (choice : Choice) (value : String)
  | noAddress
  | userMissing
deriving DecidableEq

def UsageError.message : UsageError → String
  | .unexpected argument => s!"unexpected argument '{argument}' found"
  | .valueMissing choice =>
    s!"a value is required for '{choice.placeholder}' but none was supplied"
  | .repeated choice => s!"the argument '{choice.placeholder}' cannot be used multiple times"
  | .valueUnwanted choice value =>
    s!"invalid value '{value}' for '{choice.placeholder}': invalid digit found in string"
  | .noAddress => "the following required arguments were not provided:\n  <ADDRESSES>..."
  | .userMissing => "the following required arguments were not provided:\n  --user <USER>"

inductive Word where
  | plain (address : String)
  | option (choice : Choice) (value : Option String)
  | unknown
  | stop

def stripEquals : List Char → Option String
  | [] => none
  | '=' :: value => some (String.ofList value)
  | value => some (String.ofList value)

/-- `--name`, `--name=value`, `-n`, `-nvalue`, `-n=value`; all else but a lone `-` and `--` that
starts with a hyphen is unknown. -/
def Word.classify (word : String) : Word :=
  match word.toList with
  | ['-', '-'] => .stop
  | '-' :: '-' :: rest =>
    let name := String.ofList (rest.takeWhile (· != '='))
    match Choice.all.find? (·.long == name) with
    | some choice => .option choice (stripEquals (rest.dropWhile (· != '=')))
    | none => .unknown
  | '-' :: c :: rest =>
    match Choice.all.find? (·.short? == some c) with
    | some choice => .option choice (stripEquals rest)
    | none => .unknown
  | _ => .plain word

structure Arguments where
  addresses : List String
  options : List (Choice × String)

namespace Arguments

def none : Arguments := ⟨[], []⟩

def withAddresses (a : Arguments) (more : List String) : Arguments :=
  { a with addresses := a.addresses ++ more }

def withOption (a : Arguments) (choice : Choice) (value : String) :
    Except UsageError Arguments :=
  if (a.options.lookup choice).isSome then .error (.repeated choice)
  else .ok { a with options := a.options ++ [(choice, value)] }

/-- A value is the rest of the word, or else the next word unless that is an option itself. -/
def read (a : Arguments) : List String → Except UsageError Arguments
  | [] => .ok a
  | word :: rest =>
    match Word.classify word with
    | .stop => .ok (a.withAddresses rest)
    | .plain address => (a.withAddresses [address]).read rest
    | .unknown => .error (.unexpected word)
    | .option choice (some value) => do
      let next ← a.withOption choice value
      next.read rest
    | .option choice Option.none =>
      match rest with
      | value :: rest =>
        match Word.classify value with
        | .plain _ => do
          let next ← a.withOption choice value
          next.read rest
        | _ => .error (.valueMissing choice)
      | [] => .error (.valueMissing choice)

def timeout (a : Arguments) : Except UsageError Nat :=
  match a.options.lookup .timeout with
  | Option.none => .ok 3000
  | some text =>
    match Decimal.splitSign text.toList with
    | (true, _) => .error (.valueUnwanted .timeout text)
    | (false, digits) =>
      match Decimal.natural? digits with
      | some n =>
        if n < 18446744073709551616 then .ok n else .error (.valueUnwanted .timeout text)
      | Option.none => .error (.valueUnwanted .timeout text)

def settings (words : List String) : Except UsageError Settings := do
  let a ← none.read words
  let time ← a.timeout
  if a.addresses.isEmpty then .error .noAddress
  else
    let user := a.options.lookup .user
    let password := a.options.lookup .password
    if user.isNone && password.isSome then .error .userMissing
    else
      let cluster := (a.options.lookup .discovery).map fun function =>
        { ClusterSettings.standard with discovery := some function, discoveryDelay := 60000 }
      .ok { Settings.standard with
        addresses := a.addresses
        operationTimeout := some time
        credentials := user.map fun name => ⟨name, password.getD ""⟩
        cluster := cluster }

end Arguments
end TupleClient.Shell
