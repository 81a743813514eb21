import Outbox.Delivery.Storage
import Outbox.Queue.Basic

/-!
# Offline delivery

Operations are put into a queue on disk and stay there.
-/

namespace Outbox

/-- A queue that nobody reads. -/
structure Offline where
  execution : Execution
  disk : Disk
  queue : Queue

namespace Offline

/-- Begins an execution, with the disk it leaves behind also if it fails. -/
def create (d : Disk) (base : String) (c : Container) (maxSegment now process : Nat) :
    Disk × Except DeliveryError Offline :=
  match Execution.create d base c now process with
  | (d₁, .error e) => (d₁, .error e)
  | (d₁, .ok execution) =>
    match Queue.openIn d₁ execution.place maxSegment with
    | (d₂, .error e) => (d₂, .error (.queue e))
    | (d₂, .ok queue) =>
      match execution.writeMetadata d₂ .offline c now with
      | (d₃, .error e) => (d₃, .error e)
      | (d₃, .ok _) => (d₃, .ok ⟨execution, d₃, queue⟩)

/-- Hands what was written to the disk. -/
def flush (p : Offline) : Offline :=
  match p.queue.flush p.disk with
  | (d, q) => { p with disk := d, queue := q }

/-- Keeps one operation; with `wait`, it is handed to the disk. -/
def enqueue (p : Offline) (now : Nat) (op : Operation) (wait : Bool) :
    Offline × Except DeliveryError Unit :=
  match p.queue.put p.disk now op with
  | ⟨d, q, .error e⟩ => ({ p with disk := d, queue := q }, .error (.queue e))
  | ⟨d, q, .ok _⟩ =>
    let p' := { p with disk := d, queue := q }
    (if wait then p'.flush else p', .ok ())

/-- Lets go of the queue. -/
def close (p : Offline) : Offline :=
  match p.queue.close p.disk with
  | (d, q) => { p with disk := d, queue := q }

end Offline

end Outbox
