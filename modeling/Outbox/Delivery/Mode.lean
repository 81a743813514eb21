import Outbox.Operation.Parts

/-!
# Modes of delivery

Operations are delivered in the background, at once, or not at all but kept on disk.
-/

namespace Outbox

/-- How operations are delivered. -/
inductive Mode where
  | async
  | sync
  | offline
deriving DecidableEq, Repr

/-- The name of a mode. -/
def Mode.name : Mode → String
  | .async => "async"
  | .sync => "sync"
  | .offline => "offline"

/-- All modes. -/
def Mode.all : List Mode :=
  [.async, .sync, .offline]

/-- The value of a mode. -/
def Mode.json (m : Mode) : Json.Value :=
  .string m.name

/-- The mode that a value names. -/
def Mode.ofJson? : Json.Value → Option Mode :=
  named? false all name

/-- The mode that a JSON text names. -/
def Mode.parseJson? : List UInt8 → Option Mode :=
  Json.readPart? .whole ofJson?

end Outbox
