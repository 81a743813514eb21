import Outbox.Proofs.Delivery.Sections

/-!
# What is delivered

The account of delivery: which records were put, and which batches ended and how. Records are taken as
they come out of the queue, which keeps moments in whole milliseconds. A batch ends when the service takes
it or refuses it for good, or when there is nothing in it to send.

* `Background.stored?` and `Background.ended?` are the entries that a section makes, and `puts` and
  `endings` those of any number of sections;
* `Background.enqueued` are the operations as they were given, and `obj_puts` compares them with the records;
* `Shipment` is a batch that ended with the records that it stands for, and `Accounts` says that such
  batches follow each other without gaps;
* `Background.Delivers` is what is promised.
-/

namespace Outbox

/-- How a batch can end. -/
inductive Ending where
  | accepted (receipt : Receipt)
  /-- The service refused it for good. -/
  | refused (e : BackendError)
  | nothingToSend

/-- A batch that ended. -/
structure Ended where
  batch : Batch
  ending : Ending

/-- The batch, if the service accepted it. -/
def Ended.accepted? (e : Ended) : Option Batch :=
  match e.ending with
  | .accepted _ => some e.batch
  | _ => none

/-- A batch that ended, and the records that it stands for. -/
structure Shipment where
  ended : Ended
  run : List Queued

/-- The versions of the records that a batch stands for. -/
def Shipment.versions (x : Shipment) : List Nat :=
  x.run.map Queued.version

/-- The records that batches stand for. -/
def delivered (shipments : List Shipment) : List Queued :=
  shipments.flatMap Shipment.run

/-- Batches that ended stand for the first of the records that were put, in turn. -/
structure Accounts (endings : List Ended) (records : List (Record Operation))
    (shipments : List Shipment) : Prop where
  ended : shipments.map Shipment.ended = endings
  covers : ∀ x ∈ shipments, x.ended.batch.Covers x.run
  first : delivered shipments <+: records.map queued
  consecutive : (delivered shipments).map Queued.version =
    List.range' 1 (delivered shipments).length

/-- The batch that the consumer tries to send. -/
def Phase.unsent? : Phase → Option Batch
  | .sending batch _ => some batch
  | .awaiting batch _ _ => some batch
  | .backingOff _ (.send batch _) => some batch
  | _ => none

namespace Background

variable {σ : Type}

/-! ## Entries -/

/-- The record that a section puts, as it comes out of the queue: with its moment in whole milliseconds. -/
def stored? (p : Background σ) : Section σ → Option (Record Operation)
  | .put wall op =>
    match (p.putSection wall op).2 with
    | .ok (version, _) => some ⟨op.cut, version, wall⟩
    | .error _ => none
  | _ => none

/-- The operation that a section enqueues, as it was given. -/
def enqueued? (p : Background σ) : Section σ → Option Operation
  | .put wall op =>
    match (p.putSection wall op).2 with
    | .ok _ => some op
    | .error _ => none
  | _ => none

/-- The batch that ends when it is collected. -/
def endedCollecting? : Except DeliveryError (Option Batch) → Option Ended
  | .ok (some batch) => if batch.bundle.length = 0 then some ⟨batch, .nothingToSend⟩ else none
  | _ => none

/-- The batch that ends with the answer to it. -/
def endedAnswering? (b : Backend σ) (p : Background σ) (batch : Batch) : Option Ended :=
  match (b.answer p.backend p.container batch.bundle).2 with
  | .ok receipt => some ⟨batch, .accepted receipt⟩
  | .error e => if e.isRetryable then none else some ⟨batch, .refused e⟩

/-- The batch that a section of the consumer ends. -/
def endedStep? (b : Backend σ) (p : Background σ) (now : Nat) : Option Ended :=
  match p.readiness now, p.consumer.phase with
  | .ready, .collecting _ => endedCollecting? (p.collectNext b).result
  | .ready, .awaiting batch _ _ => p.endedAnswering? b batch
  | _, _ => none

/-- The batch that a section ends. -/
def ended? (b : Backend σ) (p : Background σ) : Section σ → Option Ended
  | .consumer now => p.endedStep? b now
  | _ => none

/-- The records that sections put. -/
def puts (b : Backend σ) (p : Background σ) : List (Section σ) → List (Record Operation)
  | [] => []
  | s :: sections => (p.stored? s).toList ++ puts b (p.after b s) sections

/-- The operations that sections enqueue. -/
def enqueued (b : Backend σ) (p : Background σ) : List (Section σ) → List Operation
  | [] => []
  | s :: sections => (p.enqueued? s).toList ++ enqueued b (p.after b s) sections

/-- The batches that sections end. -/
def endings (b : Backend σ) (p : Background σ) : List (Section σ) → List Ended
  | [] => []
  | s :: sections => (p.ended? b s).toList ++ endings b (p.after b s) sections

theorem puts_append (b : Backend σ) (p : Background σ) (front back : List (Section σ)) :
    p.puts b (front ++ back) = p.puts b front ++ (p.run b front).puts b back := by
  induction front generalizing p with
  | nil => rfl
  | cons s front ih =>
    show (p.stored? s).toList ++ (p.after b s).puts b (front ++ back) =
      ((p.stored? s).toList ++ (p.after b s).puts b front) ++ _
    rw [ih, List.append_assoc]
    rfl

/-- A section puts what it enqueues, with its moment in whole milliseconds. -/
theorem obj_stored? (p : Background σ) (s : Section σ) :
    (p.stored? s).map Record.obj = (p.enqueued? s).map Operation.cut := by
  cases s with
  | put wall op =>
    simp only [stored?, enqueued?]
    cases (p.putSection wall op).2 with
    | ok put => rfl
    | error e => rfl
  | _ => rfl

/-- **Operations are put as they were enqueued**, but for their moments, which are in whole milliseconds. -/
theorem obj_puts (b : Backend σ) (p : Background σ) (sections : List (Section σ)) :
    (p.puts b sections).map Record.obj = (p.enqueued b sections).map Operation.cut := by
  induction sections generalizing p with
  | nil => rfl
  | cons s sections ih =>
    have first : (p.stored? s).toList.map Record.obj = (p.enqueued? s).toList.map Operation.cut := by
      rw [← Option.toList_map, ← Option.toList_map, p.obj_stored? s]
    rw [puts, enqueued, List.map_append, List.map_append, first, ih]

/-! ## Promises -/

/-- The records that are not acknowledged. -/
def unacked (b : Backend σ) (p : Background σ) (sections : List (Section σ)) :
    List (Record Operation) :=
  (p.puts b sections).drop (p.run b sections).queue.lastAck

/-- What is promised of any sections that follow the beginning of an execution. -/
structure Delivers (b : Backend σ) (p : Background σ) (sections : List (Section σ)) : Prop where
  /-- Each version up to the one that was acknowledged is in one batch that ended. -/
  accounted : ∃ shipments, Accounts (p.endings b sections) (p.puts b sections) shipments ∧
    ∀ v, 1 ≤ v → v ≤ (p.run b sections).queue.lastAck →
      ∃ (i : Nat) (x : Shipment), shipments[i]? = some x ∧ v ∈ x.versions ∧
        ∀ (j : Nat) (y : Shipment), shipments[j]? = some y → v ∈ y.versions → j = i
  ordered : (p.endings b sections).Pairwise fun e e' => e.batch.version < e'.batch.version
  /-- No batch is accepted twice. -/
  once : ((p.endings b sections).filterMap Ended.accepted?).Nodup
  consumed_le : (p.run b sections).control.consumed ≤ (p.run b sections).queue.lastAck
  acked_le : (p.run b sections).queue.lastAck ≤ (p.run b sections).queue.lastPut
  put : (p.run b sections).queue.lastPut = (p.puts b sections).length
  monotone : ∀ {front back : List (Section σ)}, sections = front ++ back →
    (p.run b front).control.consumed ≤ (p.run b sections).control.consumed ∧
    (p.run b front).queue.lastAck ≤ (p.run b sections).queue.lastAck ∧
    (p.run b front).queue.lastPut ≤ (p.run b sections).queue.lastPut
  /-- Whoever opens the queue later reads what was not acknowledged. -/
  readable : p.unacked b sections ≠ [] → ∀ maxSize n, ∃ d' q',
    Queue.openIn ((p.run b sections).queue.drop (p.run b sections).disk)
      (p.run b sections).queue.folder maxSize = (d', .ok q') ∧
    (q'.getUpTo (α := Operation) d' n).result =
      .ok (((p.unacked b sections).take n).map ListQueue.element)
  /-- When the consumer ends with a batch that was not sent, the batch stays the first that is not
  acknowledged. -/
  givenUp : ∀ {front back : List (Section σ)} {now : Nat} {batch : Batch},
    sections = front ++ .consumer now :: back →
    (p.run b front).consumer.phase.unsent? = some batch →
    ((p.run b front).step b now).consumer.phase = .ending →
    (p.run b sections).queue.lastAck = (p.run b front).queue.lastAck ∧
    (p.run b sections).queue.lastAck < batch.version ∧
    ∃ run rest, batch.Covers run ∧ (p.unacked b sections).map queued = run ++ rest

end Background

end Outbox
