import Outbox.Batch.Collector
import Outbox.Queue.Basic

/-!
# Sources of records

* `feed` reads from a list, in which a failure can stand for a record;
* `queueSource` reads from a queue on disk.
-/

namespace Outbox

/-- The next item of a list. -/
def nextOfFeed :
    List (Except QueueError Queued) → List (Except QueueError Queued) ×
      Except QueueError (Option Queued)
  | [] => ([], .ok none)
  | .error e :: rest => (rest, .error e)
  | .ok r :: rest => (rest, .ok (some r))

/-- Records in a list, and failures between them. -/
def feed : Source (List (Except QueueError Queued)) :=
  ⟨nextOfFeed, List.length⟩

/-- A queue and the disk it lies on. -/
structure StoredQueue where
  disk : Disk
  queue : Queue
deriving DecidableEq

/-- The next record of a queue. -/
def nextOfQueue (s : StoredQueue) : StoredQueue × Except QueueError (Option Queued) :=
  let o : Outcome (Option (Element Operation)) := s.queue.get s.disk
  (⟨o.disk, o.queue⟩, o.result.map fun e => e.map fun e => ⟨e.record.version, e.record.obj⟩)

/-- The number of bytes that are on a disk, on the way there, or fetched from there. A record takes
more than one. -/
def StoredQueue.bytes (s : StoredQueue) : Nat :=
  (s.disk.contents.map List.length).foldr (· + ·) 0 +
    (s.queue.writer.map fun w => w.buffer.length).getD 0 +
    (s.queue.reader.map fun r => r.fetched.length).getD 0

/-- The records of a queue. -/
def queueSource : Source StoredQueue :=
  ⟨nextOfQueue, StoredQueue.bytes⟩

end Outbox
