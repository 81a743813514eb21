import Outbox.Decimal.Natural
import Outbox.Delivery.Processor
import Outbox.Settings.Duration

/-!
# Settings

How operations get to the service can be set on the command line or in the environment.

* `Config` holds the settings, `Config.default` the defaults;
* `Setting` lists what can be set, with the name of each option and of its variable;
* `Config.set` reads the text of one setting;
* `Config.build` begins an execution with the settings.
-/

namespace Outbox

/-- Why settings were refused, or not even read because help was asked for. -/
inductive UsageError where
  /-- A value is missing or not one of those that can be chosen. -/
  | invalidValue
  /-- A value cannot be read. -/
  | valueValidation
  | unknownArgument
  /-- A setting occurs twice. -/
  | argumentConflict
  | displayHelp
  /-- A value where none is wanted. -/
  | tooManyValues
deriving DecidableEq, Repr

/-- The name of an error. -/
def UsageError.name : UsageError → String
  | .invalidValue => "InvalidValue"
  | .valueValidation => "ValueValidation"
  | .unknownArgument => "UnknownArgument"
  | .argumentConflict => "ArgumentConflict"
  | .displayHelp => "DisplayHelp"
  | .tooManyValues => "TooManyValues"

/-- What can be set. -/
inductive Setting where
  | mode
  | dataDir
  | sleepTime
  | maxPointsPerBatch
  | maxAttributesInBatch
  | maxPointsPerAttribute
  | maxSegmentSize
  | maxRetries
  | retryWait
  | stopTimeout
  | lagThreshold
  | noProgressThreshold
deriving DecidableEq, Repr

namespace Setting

/-- The name of the option. -/
def name : Setting → String
  | .mode => "mode"
  | .dataDir => "data-dir"
  | .sleepTime => "sleep-time"
  | .maxPointsPerBatch => "max-points-per-batch"
  | .maxAttributesInBatch => "max-attributes-in-batch"
  | .maxPointsPerAttribute => "max-points-per-attribute"
  | .maxSegmentSize => "max-segment-size"
  | .maxRetries => "max-retries"
  | .retryWait => "retry-wait"
  | .stopTimeout => "stop-timeout"
  | .lagThreshold => "lag-threshold"
  | .noProgressThreshold => "no-progress-threshold"

/-- All settings, in the order in which they are looked up in the environment. -/
def all : List Setting :=
  [.mode, .dataDir, .sleepTime, .maxPointsPerBatch, .maxAttributesInBatch, .maxPointsPerAttribute,
    .maxSegmentSize, .maxRetries, .retryWait, .stopTimeout, .lagThreshold, .noProgressThreshold]

theorem mem_all (s : Setting) : s ∈ all := by
  cases s <;> decide

/-- The name of the variable in the environment. -/
def envName (s : Setting) : String :=
  "TRACKLOG_" ++ String.ofList (s.name.toList.map fun c => if c = '-' then '_' else c.toUpper)

/-- The setting with an option name. -/
def named? (option : String) : Option Setting :=
  all.find? fun s => s.name == option

end Setting

/-- The settings of a processor. -/
structure Config where
  mode : Mode
  background : BackgroundSettings
deriving DecidableEq

/-- The default settings of delivery in the background. -/
def BackgroundSettings.default : BackgroundSettings where
  dataDir := ".tracklog"
  sleepTime := 5 * second
  limits := .default
  maxSegment := defaultSegmentSize
  maxRetries := 10
  retryWait := 30 * second
  stopTimeout := 300 * second
  lagThreshold := 1800 * second
  noProgressThreshold := 300 * second

namespace Config

/-- The default settings. -/
def default : Config :=
  ⟨.async, .default⟩

/-- Reads a number in 64 bits. -/
def number (text : String) : Except UsageError Nat :=
  match Decimal.readBelow? UInt64.size text.toList with
  | some n => .ok n
  | none => .error .valueValidation

/-- Reads a duration. -/
def duration (text : String) : Except UsageError Nat :=
  match parseDuration? text with
  | some n => .ok n
  | none => .error .valueValidation

/-- Reads a mode by its name. -/
def modeNamed (text : String) : Except UsageError Mode :=
  match Mode.all.find? fun m => m.name == text with
  | some m => .ok m
  | none => .error .invalidValue

/-- Reads the path of a folder. -/
def folder (text : String) : Except UsageError String :=
  if text = "" then .error .invalidValue else .ok text

/-- Reads the text of a setting. -/
def set (c : Config) (s : Setting) (text : String) : Except UsageError Config :=
  let b := c.background
  let withBackground (b : BackgroundSettings) : Config := { c with background := b }
  match s with
  | .mode => (modeNamed text).map fun m => { c with mode := m }
  | .dataDir => (folder text).map fun p => withBackground { b with dataDir := p }
  | .sleepTime => (duration text).map fun n => withBackground { b with sleepTime := n }
  | .maxPointsPerBatch =>
    (number text).map fun n => withBackground { b with limits := { b.limits with points := n } }
  | .maxAttributesInBatch =>
    (number text).map fun n => withBackground { b with limits := { b.limits with attributes := n } }
  | .maxPointsPerAttribute => (number text).map fun n =>
      withBackground { b with limits := { b.limits with pointsPerAttribute := n } }
  | .maxSegmentSize => (number text).map fun n => withBackground { b with maxSegment := n }
  | .maxRetries => (number text).map fun n => withBackground { b with maxRetries := n }
  | .retryWait => (duration text).map fun n => withBackground { b with retryWait := n }
  | .stopTimeout => (duration text).map fun n => withBackground { b with stopTimeout := n }
  | .lagThreshold => (duration text).map fun n => withBackground { b with lagThreshold := n }
  | .noProgressThreshold =>
    (duration text).map fun n => withBackground { b with noProgressThreshold := n }

/-- Begins an execution with these settings. -/
def build {σ : Type} (c : Config) (service : Backend σ) (d : Disk) (s : σ) (container : Container)
    (wall process : Nat) : Except DeliveryError (Processor σ) :=
  Processor.create service c.mode d s container c.background wall process

end Config

end Outbox
