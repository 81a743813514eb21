import Outbox.Proofs.Batch.Undecoded
import Outbox.Proofs.Delivery.Order
import Outbox.Proofs.Delivery.Place
import Outbox.Proofs.Queue.Readable

/-!
# The course of a stop

A stop takes several sections: it hands the queue to the disk, takes the consumer from other stops, waits
until what was put is delivered, interrupts the consumer, waits for its end, and lets go of the queue. Each
of the two waits may end because the time is over.

* `StopPoint` is where a stop is, and `Background.stopStep` its next section; `stopSteps_begun` and
  `stopSteps_finishing` say which sections the calls are;
* `InOrder.stopStep` says that a section of a stop keeps everything in order;
* `queue_stopStep` says that only the last section closes the queue;
* `Keeps.yields` and `Stores.isFolder` say what is left behind.
-/

namespace Outbox

/-! ## Operations that can be put -/

/-- The operation is read back from its own text. -/
def Operation.Survives (op : Operation) : Prop :=
  parse? (Utf8.encode op.render) = some op

/-- An operation that survives is stored, if it fits into a frame. -/
theorem Operation.Survives.durable {op : Operation} (survives : op.Survives) {version : Nat} {now : Int}
    (small : version < UInt64.size) (clock : IsClock now)
    (fits : (Record.payload ⟨op, version, now⟩).length < UInt32.size) :
    Record.Durable ⟨op.cut, version, now⟩ :=
  Record.durable_cut (r := ⟨op, version, now⟩) (exact_of_parse? survives).dated small clock fits

/-- Whoever opens a folder reads a record, behind so many others. -/
def Disk.Yields (d : Disk) (folder : Place) (ahead : Nat) (r : Record Operation) : Prop :=
  ∀ maxSize, ∃ d' q before, Queue.openIn d folder maxSize = (d', .ok q) ∧
    before.length = ahead ∧
    (q.getUpTo d' (ahead + 1)).result = .ok (before ++ [ListQueue.element r])

/-! ## The course of a stop -/

/-- Where a stop is. -/
inductive StopPoint where
  | begun
  /-- The queue was handed to the disk. -/
  | flushed
  /-- It has taken the consumer from other stops. -/
  | taken
  /-- Waits until everything up to a version is delivered. -/
  | draining (target : Nat)
  | drained
  /-- Waits until the consumer has come to an end. -/
  | awaiting
  | finishing
  /-- Is about to let go of the queue. -/
  | closing
  | returned (result : Except DeliveryError Unit)

namespace Background

variable {σ : Type}

/-- The next section of a stop, and where it is then. A wait ends early if the time is over. -/
def stopStep (p : Background σ) (timeIsOver : Bool) : StopPoint → Background σ × StopPoint
  | .begun => (p.flush, .flushed)
  | .flushed => if p.handle then ({ p with handle := false }, .taken) else (p, .finishing)
  | .taken => (p.askToStop, .draining p.control.lastPut)
  | .draining target => if p.isDrained target || timeIsOver then (p, .drained) else (p, .draining target)
  | .drained => (p.interrupt, .awaiting)
  | .awaiting =>
    if p.isStopped then (p, .finishing)
    else if timeIsOver then (p, .returned (.ok ())) else (p, .awaiting)
  | .finishing => if p.control.status.isAlive then (p, .returned (.ok ())) else (p.markStopped, .closing)
  | .closing =>
    match p.cleanUp with
    | (p', result) => (p', .returned result)
  | .returned result => (p, .returned result)

/-- A stop with nothing happening in between, until it waits or returns. -/
def stopSteps (p : Background σ) (pt : StopPoint) : Nat → Background σ × StopPoint
  | 0 => (p, pt)
  | n + 1 => (p.stopStep false pt).1.stopSteps (p.stopStep false pt).2 n

/-- The beginning of a stop, as one call, are its first sections. -/
theorem stopSteps_begun (p : Background σ) : p.stopSteps .begun (if p.handle then 3 else 2) =
    match p.beginStop with
    | (p', some target) => (p', .draining target)
    | (p', none) => (p', .finishing) := by
  have same : p.flush.handle = p.handle := rfl
  unfold beginStop
  cases handle : p.handle with
  | true =>
    rw [handle] at same
    simp only [same, if_true, stopSteps, stopStep]
    rfl
  | false =>
    rw [handle] at same
    simp only [same, Bool.false_eq_true, if_false, stopSteps, stopStep]

/-- The end of a stop, as one call, are its last sections. -/
theorem stopSteps_finishing (p : Background σ) :
    p.stopSteps .finishing 2 = (p.finishStop.1, .returned p.finishStop.2) := by
  unfold finishStop
  cases alive : p.control.status.isAlive with
  | true => simp only [stopSteps, stopStep, alive, if_true]
  | false => simp only [stopSteps, stopStep, alive, Bool.false_eq_true, if_false]

variable {p : Background σ} {b : Backend σ} {l : ListQueue Operation} {shipments : List Shipment}
  {flight : List Queued}

/-! ## Sections around a stop -/

/-- An operation that survives is put behind the others, or refused by a queue that was closed or for its
size. -/
theorem InOrder.put_survivor (h : p.InOrder l shipments flight) {wall : Nat} {op : Operation}
    (survives : op.Survives) (clock : IsClock wall) (small : p.queue.lastPut + 1 < UInt64.size)
    (spares : op.Spares p.queue.folder) :
    ∃ l', (p.putSection wall op).1.InOrder l' shipments flight ∧
      l'.records = l.records ++ (p.stored? (.put wall op)).toList ∧
      (p.putSection wall op).1.control = p.control := by
  have lastPut := h.keeps.stores.lastPut
  by_cases large : p.queue.writer.isSome = true ∧
      UInt32.size ≤ (Record.payload ⟨op, p.queue.lastPut + 1, wall⟩).length
  · obtain ⟨isOpen, large⟩ := large
    cases h.keeps.stores with
    | removed atEnd closed put acked all =>
      rw [closed] at isOpen
      cases isOpen
    | held holds =>
      rw [lastPut] at large
      obtain ⟨d', q', e, refused, holds', folder⟩ :=
        holds.put_large (holds.isOpen.symm.trans isOpen) (lastPut ▸ small) large
      have done : p.putSection wall op = ({ p with disk := d', queue := q' }, .error (.queue e)) := by
        rw [putSection, refused]
      have nothing : p.stored? (.put wall op) = none := by rw [stored?, done]
      rw [done, nothing]
      exact ⟨l, h.kept (.held holds') folder rfl rfl rfl rfl rfl, (List.append_nil _).symm, rfl⟩
  · have durable (isOpen : p.queue.writer.isSome = true) :
        Record.Durable ⟨op.cut, p.queue.lastPut + 1, wall⟩ := by
      exact survives.durable small clock (Nat.lt_of_not_le fun many => large ⟨isOpen, many⟩)
    obtain ⟨l', inOrder, records, -, control, -⟩ := h.put durable spares
    exact ⟨l', inOrder, records, control⟩

/-- Nothing begins again once there is no consumer any more. -/
theorem InOrder.rests_stopped (h : p.InOrder l shipments flight) (atEnd : p.control.status = .stopped)
    (now : Nat) : p.step b now = p := by
  have lives := h.lives
  rw [atEnd] at lives
  have gone : p.readiness now = .gone := by
    unfold readiness
    cases phase : p.consumer.phase with
    | absent | ended => rfl
    | _ =>
      rw [phase] at lives
      cases lives
  simp only [Background.step, gone]

/-- Everything is in order after a section of a stop that began with this system. The stop is about to
let go of the queue only if there is no consumer any more. -/
def StopsInOrder (p : Background σ) (l : ListQueue Operation) (shipments : List Shipment)
    (flight : List Queued) (r : Background σ × StopPoint) : Prop :=
  ∃ l', r.1.InOrder l' shipments flight ∧ l'.records = l.records ∧
    (p.control.status = .stopped → r.1.control.status = .stopped) ∧
    (r.2 = .closing → r.1.control.status = .stopped)

theorem Quiet.stopsInOrder {p' : Background σ} (quiet : p.Quiet p') (h : p.InOrder l shipments flight)
    {pt : StopPoint} (other : pt ≠ .closing) : p.StopsInOrder l shipments flight (p', pt) :=
  ⟨l, quiet.inOrder h, rfl, quiet.status.stopped, fun same => absurd same other⟩

theorem status_markStopped (p : Background σ) : p.markStopped.control.status = .stopped := by
  have quiet : (p.withControl fun c => { c with status := .stopped }).Quiet p.markStopped := quiet_notify _
  exact quiet.status.stopped rfl

/-- **A section of a stop**, wherever the stop is. -/
theorem InOrder.stopStep (h : p.InOrder l shipments flight) {pt : StopPoint}
    (closing : pt = .closing → p.control.status = .stopped) (timeIsOver : Bool) :
    p.StopsInOrder l shipments flight (p.stopStep timeIsOver pt) := by
  have unchanged {pt' : StopPoint} (other : pt' ≠ .closing) :
      p.StopsInOrder l shipments flight (p, pt') := (quiet_refl p).stopsInOrder h other
  cases pt with
  | begun =>
    obtain ⟨stores, folder⟩ := h.keeps.stores.flush
    exact ⟨l, h.kept stores folder rfl rfl rfl rfl rfl, rfl, id, nofun⟩
  | flushed =>
    show p.StopsInOrder l shipments flight (if _ then _ else _)
    split
    · have taken : p.Quiet { p with handle := false } := ⟨rfl, rfl, rfl, rfl, .inl rfl, .same _⟩
      exact taken.stopsInOrder h nofun
    · exact unchanged nofun
  | taken => exact (quiet_askToStop p).stopsInOrder h nofun
  | draining target =>
    show p.StopsInOrder l shipments flight (if _ then _ else _)
    split
    · exact unchanged nofun
    · exact unchanged nofun
  | drained => exact (quiet_interrupt p).stopsInOrder h nofun
  | awaiting =>
    show p.StopsInOrder l shipments flight (if _ then _ else if _ then _ else _)
    split
    · exact unchanged nofun
    · split
      · exact unchanged nofun
      · exact unchanged nofun
  | finishing =>
    show p.StopsInOrder l shipments flight (if _ then _ else _)
    split
    · exact unchanged nofun
    · next gone =>
      have quiet := quiet_markStopped (Bool.eq_false_iff.2 gone)
      exact ⟨l, quiet.inOrder h, rfl, quiet.status.stopped, fun _ => status_markStopped p⟩
  | closing =>
    have atEnd := closing rfl
    obtain ⟨stores, folder⟩ := h.keeps.stores.cleanUp atEnd
    obtain ⟨control, consumer⟩ := cleanUp_frame p
    have still : p.cleanUp.1.control.status = .stopped := by rw [control, atEnd]
    exact ⟨_, h.kept stores folder control consumer rfl rfl rfl, rfl, fun _ => still, fun _ => still⟩
  | returned result => exact unchanged nofun

/-- Before a stop lets go of the queue, it only hands it to the disk. -/
theorem queue_stopStep (p : Background σ) (timeIsOver : Bool) {pt : StopPoint} (other : pt ≠ .closing) :
    (p.stopStep timeIsOver pt).1.queue = p.queue ∨
      (p.stopStep timeIsOver pt).1.queue = (p.queue.flush p.disk).2 := by
  cases pt with
  | begun => exact .inr rfl
  | taken | drained => exact .inl (queue_notify _)
  | closing => exact absurd rfl other
  | finishing =>
    show (if _ then _ else _ : Background σ × StopPoint).1.queue = _ ∨ _
    split
    · exact .inl rfl
    · exact .inl (queue_notify _)
  | flushed | draining =>
    show (if _ then _ else _ : Background σ × StopPoint).1.queue = _ ∨ _
    split <;> exact .inl rfl
  | awaiting =>
    show (if _ then _ else if _ then _ else _ : Background σ × StopPoint).1.queue = _ ∨ _
    split
    · exact .inl rfl
    · split <;> exact .inl rfl
  | returned result => exact .inl rfl

theorem folder_stopStep (p : Background σ) (timeIsOver : Bool) (pt : StopPoint) :
    (p.stopStep timeIsOver pt).1.queue.folder = p.queue.folder := by
  by_cases closing : pt = .closing
  · subst closing
    exact folder_cleanUp p
  · rcases p.queue_stopStep timeIsOver closing with same | flushed
    · rw [same]
    · rw [flushed, Queue.folder_flush]

theorem writer_stopStep (p : Background σ) (timeIsOver : Bool) {pt : StopPoint} (other : pt ≠ .closing) :
    (p.stopStep timeIsOver pt).1.queue.writer.isSome = p.queue.writer.isSome := by
  rcases p.queue_stopStep timeIsOver other with same | flushed
  · rw [same]
  · obtain ⟨writer, kept, still⟩ := Queue.flush_eq p.disk p.queue
    rw [flushed, kept, still]

/-- Whether the consumer has not begun or has come to an end. -/
def HasNoConsumer (p : Background σ) : Prop :=
  p.consumer.phase = .absent ∨ p.consumer.phase = .ended

/-- A system that has come to an end has no consumer. -/
theorem InOrder.hasNoConsumer (h : p.InOrder l shipments flight) (atEnd : p.control.status = .stopped) :
    p.HasNoConsumer := by
  have lives := h.lives
  rw [atEnd] at lives
  unfold HasNoConsumer
  cases phase : p.consumer.phase with
  | absent => exact .inl rfl
  | ended => exact .inr rfl
  | _ =>
    rw [phase] at lives
    cases lives

/-- The folder of a queue is there while something in it is not acknowledged. -/
theorem Stores.isFolder (h : p.Stores l) (some_left : l.acked ≠ l.records.length) :
    p.disk.lookup? p.queue.folder = some .folder := by
  cases h with
  | held holds =>
    obtain ⟨ids, intact⟩ := holds.intact
    exact intact.tidy.isFolder
  | removed _ _ _ _ all => exact absurd all some_left

/-- Whoever opens the queue later reads every record that is not acknowledged, in its place. -/
theorem Keeps.yields (h : p.Keeps l shipments flight) {r : Record Operation} (mem : r ∈ l.records)
    (unacked : p.queue.lastAck < r.version) :
    (p.queue.drop p.disk).Yields p.queue.folder (r.version - p.queue.lastAck - 1) r := by
  obtain ⟨i, found⟩ := List.getElem?_of_mem mem
  have version := h.numbered found
  have lastAck := h.stores.lastAck
  have here : (l.records.drop l.acked)[r.version - p.queue.lastAck - 1]? = some r := by
    rw [List.getElem?_drop, ← found]
    congr 1
    omega
  have some_left : l.records.drop l.acked ≠ [] := by
    intro none_left
    rw [none_left] at here
    cases here
  intro maxSize
  obtain ⟨d', q, opened, got⟩ :=
    h.stores.readable some_left maxSize (r.version - p.queue.lastAck - 1 + 1)
  obtain ⟨inside, -⟩ := List.getElem?_eq_some_iff.1 here
  refine ⟨d', q, ((l.records.drop l.acked).take (r.version - p.queue.lastAck - 1)).map ListQueue.element,
    opened, ?_, ?_⟩
  · rw [List.length_map, List.length_take]
    omega
  · rw [got, List.take_add_one, here, List.map_append]
    rfl

end Background

end Outbox
