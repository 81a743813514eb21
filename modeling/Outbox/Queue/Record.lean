import Outbox.Operation.Parts
import Outbox.Text.Utf8

/-!
# Records

What the queue stores for an object: the object, its version and the time at which it was put, as
JSON.

* `Storable` are the types whose values can be stored;
* `Record.payload` is what is written, and `Record.parse?` reads it back;
* `Record.version?` reads the version alone, whatever the object is.
-/

namespace Outbox

open Json (Value Outline)

/-- Types whose values can be put into a queue. -/
class Storable (α : Type) where
  json : α → Value
  ofJson? : Value → Option α

instance : Storable String :=
  ⟨.string, Value.string?⟩

instance : Storable Operation :=
  ⟨Operation.json, Operation.ofJson?⟩

/-- A stored object. -/
structure Record (α : Type) where
  obj : α
  version : Nat
  /-- The time at which the object was put, in milliseconds since 1970. -/
  time : Int
deriving DecidableEq

namespace Record

variable {α : Type} [Storable α]

/-- The bytes of a record. -/
def payload (r : Record α) : List UInt8 :=
  Utf8.encode (Value.object [("obj", Storable.json r.obj), ("version", .integer r.version),
    ("at", .integer r.time)]).render

/-- The record that a structure denotes. -/
def ofJson? (v : Value) : Option (Record α) :=
  match Json.fill? [.required "obj", .required "version", .required "at"] v with
  | some [obj, version, time] => do
    let obj ← Storable.ofJson? obj
    let version ← version.natural?
    let time ← time.signed?
    return ⟨obj, version, time⟩
  | _ => none

/-- The members of a record. -/
def outline : Outline :=
  .members [("obj", .whole), ("version", .whole), ("at", .whole)]

/-- The record that bytes denote. -/
def parse? (bytes : List UInt8) : Option (Record α) :=
  Json.readPart? outline ofJson? bytes

/-- The version that a structure holds, if it is looked at for nothing else. -/
def versionOf? (v : Value) : Option Nat :=
  match Json.fill? [.required "version"] v with
  | some [version] => version.natural?
  | _ => none

/-- The version in the bytes of a record. -/
def version? (bytes : List UInt8) : Option Nat :=
  Json.readPart? (.members [("version", .whole)]) versionOf? bytes

end Record

end Outbox
