import Outbox.Settings.Config

/-!
# The command line

Settings are given as options with a value, either in one argument, `--name=value`, or in two. An
option in one argument is read at once; one in two arguments is read when the next option begins, or
at the end. So among several faults the one that is met first counts, and an unknown argument hides
the faults of an option that was not read yet. Settings that the command line leaves open are looked
up in the environment.

* `Argument.ofText` tells what an argument is by itself;
* `Scanning` is how far the command line was read, and `Scanning.step` reads one argument;
* `Config.parse` gives the settings.
-/

namespace Outbox

/-- What an argument is by itself. -/
inductive Argument where
  /-- Two dashes: no options from here on. -/
  | endOfOptions
  | option (s : Setting) (value : Option String)
  | help (value : Option String)
  /-- Looks like an option, but is none. -/
  | unknown
  /-- Can be the value of an option. -/
  | plain (text : String)
deriving DecidableEq

/-- A text cut at its first equals sign. -/
def cutAtEquals (cs : List Char) : String × Option String :=
  match cs.dropWhile (· ≠ '=') with
  | [] => (String.ofList cs, none)
  | _ :: value => (String.ofList (cs.takeWhile (· ≠ '=')), some (String.ofList value))

/-- What an argument is. -/
def Argument.ofText (text : String) : Argument :=
  match text.toList with
  | ['-', '-'] => .endOfOptions
  | '-' :: '-' :: cs =>
    match cutAtEquals cs with
    | (name, value) =>
      if name = "help" then .help value
      else
        match Setting.named? name with
        | some s => .option s value
        | none => .unknown
  | ['-'] => .plain text
  | '-' :: 'h' :: _ => .help none
  | '-' :: _ => .unknown
  | _ => .plain text

/-- How far a command line was read. -/
structure Scanning where
  config : Config
  /-- The settings that were read. -/
  seen : List Setting
  /-- An option that was not read yet, with its value if there was one. -/
  pending : Option (Setting × Option String)
  optionsEnded : Bool
deriving DecidableEq

namespace Scanning

/-- Nothing was read. -/
def start : Scanning :=
  ⟨.default, [], none, false⟩

/-- Reads an option. -/
def settle (s : Scanning) (setting : Setting) (value : Option String) : Except UsageError Scanning :=
  match value with
  | none => .error .invalidValue
  | some text =>
    if setting ∈ s.seen then .error .argumentConflict
    else (s.config.set setting text).map fun c => ⟨c, setting :: s.seen, none, s.optionsEnded⟩

/-- Reads the option that was not read yet. -/
def settlePending (s : Scanning) : Except UsageError Scanning :=
  match s.pending with
  | none => .ok s
  | some (setting, value) => s.settle setting value

/-- Reads an argument that can be a value. -/
def plain (s : Scanning) (text : String) : Except UsageError Scanning :=
  match s.pending with
  | some (setting, none) => .ok { s with pending := some (setting, some text) }
  | _ => .error .unknownArgument

/-- Reads one argument. -/
def step (s : Scanning) (text : String) : Except UsageError Scanning :=
  if s.optionsEnded then .error .unknownArgument
  else
    match Argument.ofText text with
    | .endOfOptions => .ok { s with optionsEnded := true }
    | .unknown => .error .unknownArgument
    | .plain text => s.plain text
    | .help (some _) => .error .tooManyValues
    | .help none => s.settlePending.bind fun _ => .error .displayHelp
    | .option setting none =>
      s.settlePending.map fun s' => { s' with pending := some (setting, none) }
    | .option setting (some value) => s.settlePending.bind fun s' => s'.settle setting (some value)

/-- Looks a setting up in the environment if the command line leaves it open. -/
def lookUp (env : List (String × String)) (s : Scanning) (setting : Setting) :
    Except UsageError Scanning :=
  if setting ∈ s.seen then .ok s
  else
    match env.reverse.lookup setting.envName with
    | none => .ok s
    | some text => (s.config.set setting text).map fun c => { s with config := c }

end Scanning

/-- The settings that a command line and an environment give. -/
def Config.parse (args : List String) (env : List (String × String)) : Except UsageError Config := do
  let s ← args.foldlM Scanning.step Scanning.start
  let s ← s.settlePending
  let s ← Setting.all.foldlM (Scanning.lookUp env) s
  return s.config

end Outbox
