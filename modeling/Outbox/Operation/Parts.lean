import Outbox.Operation.Codec

/-!
# Parts of operations on their own

The texts of a path, a point, an image, a tracked file and of the enumerations, each as a document of
its own. Other than within an operation, members of a structure that are not declared are skipped
without being read, and an enumeration written as an object has a plain null.
-/

namespace Outbox

open Json (Value Outline)

/-- What a JSON text denotes, the text given as bytes, if only the outlined part is looked at. -/
def Json.readPart? {α : Type} (o : Outline) (read? : Value → Option α) (bytes : List UInt8) :
    Option α := do
  let tree ← Json.Tree.parse? bytes
  let v ← tree.outlined? o Json.maxLevels
  read? v

/-- The declared members of an image. -/
def Image.outline : Outline :=
  .members [("data", .whole), ("name", .whole), ("description", .whole)]

/-- The declared members of a point. -/
def Point.outline (value : Outline) : Outline :=
  .members [("value", value), ("step", .whole), ("ts", .whole)]

/-- The declared members of a tracked file. -/
def TrackedFile.outline : Outline :=
  .members [("file_path", .whole), ("destination", .whole)]

/-- The path that a JSON text denotes. -/
def AttributePath.parseJson? : List UInt8 → Option AttributePath :=
  Json.readPart? .whole ofJson?

/-- The container type that a JSON text names. -/
def ContainerType.parseJson? : List UInt8 → Option ContainerType :=
  Json.readPart? .whole (ofJson? false)

/-- The copy kind that a JSON text names. -/
def CopyKind.parseJson? : List UInt8 → Option CopyKind :=
  Json.readPart? .whole (ofJson? false)

/-- The image that a JSON text denotes. -/
def Image.parseJson? : List UInt8 → Option Image :=
  Json.readPart? outline ofJson?

/-- The tracked file that a JSON text denotes. -/
def TrackedFile.parseJson? : List UInt8 → Option TrackedFile :=
  Json.readPart? outline ofJson?

/-- The point of a float series that a JSON text denotes. -/
def Point.parseFloat? : List UInt8 → Option (Point Binary64) :=
  Json.readPart? (outline .whole) (ofJson? Binary64.ofJson?)

/-- The point of a string series that a JSON text denotes. -/
def Point.parseString? : List UInt8 → Option (Point String) :=
  Json.readPart? (outline .whole) (ofJson? Value.string?)

/-- The point of an image series that a JSON text denotes. -/
def Point.parseImage? : List UInt8 → Option (Point Image) :=
  Json.readPart? (outline Image.outline) (ofJson? Image.ofJson?)

end Outbox
