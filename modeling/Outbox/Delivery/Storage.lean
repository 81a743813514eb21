import Outbox.Batch.Collector
import Outbox.Delivery.Mode
import Outbox.Disk.Path

/-!
# The folder of an execution

Every execution keeps its files in a folder of its own, below the folder of its container. A file in
it tells which execution it belongs to.

* `Execution.create` makes the folder, named after the time and the process;
* `Metadata` describes the execution; `Execution.writeMetadata` and `readMetadata` store it.
-/

namespace Outbox

open Json (Value)

/-- The version of the program that writes metadata. -/
def programVersion : String := "0.4.0"

/-- The name of the file with the metadata. -/
def metadataName : String := "metadata.json"

/-- What an execution is and when it began. -/
structure Metadata where
  mode : Mode
  container : Container
  /-- Milliseconds since 1970. -/
  createdAt : Int
  version : String
deriving DecidableEq

namespace Metadata

/-- The text of metadata. -/
def render (m : Metadata) : List Char :=
  Json.renderLines [("mode", m.mode.json), ("container_id", .string m.container.id),
    ("container_type", m.container.type.json), ("created_at", .integer m.createdAt),
    ("version", .string m.version)]

/-- The metadata that a structure denotes. -/
def ofJson? (v : Value) : Option Metadata :=
  match Json.fill? [.required "mode", .required "container_id", .required "container_type",
      .required "created_at", .required "version"] v with
  | some [mode, id, type, createdAt, version] => do
    let mode ← Mode.ofJson? mode
    let id ← id.string?
    let type ← ContainerType.ofJson? false type
    let createdAt ← createdAt.signed?
    let version ← version.string?
    return ⟨mode, ⟨id, type⟩, createdAt, version⟩
  | _ => none

/-- The metadata that a text denotes. -/
def parse? : List UInt8 → Option Metadata :=
  Json.readPart? (.members [("mode", .whole), ("container_id", .whole), ("container_type", .whole),
    ("created_at", .whole), ("version", .whole)]) ofJson?

end Metadata

/-- The folder of an execution. -/
structure Execution where
  path : String
  place : Place
deriving DecidableEq

/-- The path of the folder of an execution below a base folder. -/
def executionPath (base : String) (c : Container) (now process : Nat) : String :=
  joinPath (joinPath base (c.type.name ++ "__" ++ c.id))
    ("exec-" ++ toString now ++ "-" ++ toString process)

namespace Execution

/-- Makes the folder of an execution that begins now. -/
def create (d : Disk) (base : String) (c : Container) (now process : Nat) :
    Disk × Except DeliveryError Execution :=
  let path := executionPath base c now process
  match d.makePath? path with
  | none => (d, .error .storage)
  | some (d', place) => (d', .ok ⟨path, place⟩)

/-- Writes the metadata of an execution into its folder. -/
def writeMetadata (d : Disk) (e : Execution) (mode : Mode) (c : Container) (now : Nat) :
    Disk × Except DeliveryError Metadata :=
  let m : Metadata := ⟨mode, c, now, programVersion⟩
  if isPath (joinPath e.path metadataName) then
    match d.write? (e.place ++ [metadataName]) (Utf8.encode m.render) with
    | none => (d, .error .storage)
    | some d' => (d', .ok m)
  else (d, .error .storage)

end Execution

/-- Reads the metadata in a folder. -/
def readMetadata (d : Disk) (folder : Place) : Except DeliveryError Metadata :=
  match d.content? (folder ++ [metadataName]) with
  | none => .error .storage
  | some bytes =>
    match Metadata.parse? bytes with
    | none => .error .metadata
    | some m => .ok m

end Outbox
