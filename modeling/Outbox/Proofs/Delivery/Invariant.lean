import Outbox.Proofs.Delivery.Account

/-!
# What holds at all times

The records that were put are, in this order: those of the batches that ended, those of the batch in
flight, the one that waits for the next batch, and those that nobody has read. The phase of the
consumer tells which batch is in flight and how far the queue was acknowledged, and the control words
never say more than the queue.

* `Phase.Fits` and `Phase.Lives` are what a phase has to do with the queue and with the status;
* `Background.Keeps` is where the records are, and `Background.InOrder` the invariant;
* `InOrder.frame` and `InOrder.stored` are its two frame rules, for sections that do not touch the
  queue and for those that touch nothing else.
-/

namespace Outbox

/-- What the phase of the consumer says: how many records are acknowledged, how many are in batches
that ended, and which are in flight. -/
def Phase.Fits (acked ended : Nat) (flight : List Queued) : Phase → Prop
  | .sending batch _ => batch.Covers flight ∧ acked = ended
  | .awaiting batch _ _ => batch.Covers flight ∧ acked = ended
  | .backingOff _ (.send batch _) => batch.Covers flight ∧ acked = ended
  | .acknowledging batch => flight = [] ∧ batch.version = ended ∧ acked ≤ ended
  | .publishing version => flight = [] ∧ version = ended ∧ acked = ended
  -- a batch that was given up remains in flight
  | .ending => acked = ended
  | .ended => acked = ended
  | _ => flight = [] ∧ acked = ended

/-- Which status goes with the phase of the consumer. -/
def Phase.Lives : Phase → Status → Prop
  | .absent, s => s = .idle ∨ s = .stopped
  | .ended, s => s = .stopped
  | _, s => s.isAlive = true

/-- How the phase of a consumer changes when it is notified. -/
inductive Phase.Nudged : Phase → Phase → Prop
  | same (ph : Phase) : Nudged ph ph
  | woken (deadline : Nat) (notified : Bool) :
      Nudged (.sleeping deadline notified) (.sleeping deadline true)

/-- How a status changes when nobody starts or ends the consumer. -/
def Status.Becomes (s s' : Status) : Prop :=
  s' = s ∨ s.isAlive = true ∧ s'.isAlive = true ∨ s.isAlive = false ∧ s' = .stopped

theorem Status.Becomes.stopped {s s' : Status} (h : s.Becomes s') (atEnd : s = .stopped) :
    s' = .stopped := by
  subst atEnd
  rcases h with same | ⟨alive, -⟩ | ⟨-, atEnd⟩
  · exact same
  · cases alive
  · exact atEnd

theorem Status.Becomes.trans {s s' s'' : Status} (h : s.Becomes s') (h' : s'.Becomes s'') :
    s.Becomes s'' := by
  rcases h with rfl | ⟨alive, alive'⟩ | ⟨gone, atEnd⟩
  · exact h'
  · rcases h' with rfl | ⟨-, alive''⟩ | ⟨gone, -⟩
    · exact .inr (.inl ⟨alive, alive'⟩)
    · exact .inr (.inl ⟨alive, alive''⟩)
    · rw [alive'] at gone
      cases gone
  · exact .inr (.inr ⟨gone, h'.stopped atEnd⟩)

theorem Phase.Nudged.trans {ph ph' ph'' : Phase} (h : ph.Nudged ph') (h' : ph'.Nudged ph'') :
    ph.Nudged ph'' := by
  cases h with
  | same => exact h'
  | woken deadline notified =>
    cases h' with
    | same => exact .woken deadline notified
    | woken => exact .woken deadline notified

theorem Phase.Lives.nudged {ph ph' : Phase} {s s' : Status} (h : ph.Lives s) (becomes : s.Becomes s')
    (nudged : ph.Nudged ph') : ph'.Lives s' := by
  have alive (was : s.isAlive = true) : s'.isAlive = true := by
    rcases becomes with rfl | ⟨-, alive⟩ | ⟨gone, -⟩
    · exact was
    · exact alive
    · rw [was] at gone
      cases gone
  cases nudged with
  | woken => exact alive h
  | same =>
    cases ph with
    | absent =>
      rcases h with rfl | rfl
      · rcases becomes with same | ⟨was, -⟩ | ⟨-, atEnd⟩
        · exact .inl same
        · cases was
        · exact .inr atEnd
      · exact .inr (becomes.stopped rfl)
    | ended => exact becomes.stopped h
    | _ => exact alive h

/-- There is no consumer before the start. -/
theorem Phase.Lives.absent {ph : Phase} (h : ph.Lives .idle) : ph = .absent := by
  cases ph with
  | absent => rfl
  | _ => cases h

namespace Background

variable {σ : Type}

/-- The queue of an execution holds a list, or was removed when everything in it was acknowledged. -/
inductive Stores (p : Background σ) (l : ListQueue Operation) : Prop
  | held : StoredQueue.Holds ⟨p.disk, p.queue⟩ l → Stores p l
  | removed : p.control.status = .stopped → p.queue.writer = none →
      p.queue.lastPut = l.records.length → p.queue.lastAck = l.acked →
      l.acked = l.records.length → Stores p l

/-- The records of a queue, where the queue holds a list, these batches ended and these records are in
flight. -/
structure Keeps (p : Background σ) (l : ListQueue Operation) (shipments : List Shipment)
    (flight : List Queued) : Prop where
  stores : p.Stores l
  acked_le : l.acked ≤ l.read
  read_le : l.read ≤ l.records.length
  numbered : ∀ {i : Nat} {r : Record Operation}, l.records[i]? = some r → r.version = i + 1
  spares : ∀ r ∈ l.records, r.obj.Spares p.queue.folder
  covers : ∀ x ∈ shipments, x.ended.batch.Covers x.run
  records : l.records.map queued = delivered shipments ++ (flight ++
    (p.consumer.stash.toList ++ (l.records.drop l.read).map queued))
  consumed : p.control.consumed ≤ l.acked

/-- The state of everything: the consumer does what the records say. -/
structure InOrder (p : Background σ) (l : ListQueue Operation) (shipments : List Shipment)
    (flight : List Queued) : Prop where
  keeps : p.Keeps l shipments flight
  phase : p.consumer.phase.Fits l.acked (delivered shipments).length flight
  lives : p.consumer.phase.Lives p.control.status
  fresh : p.consumer.phase = .absent → p.consumer.stash = none

variable {p : Background σ} {l : ListQueue Operation} {shipments : List Shipment}
  {flight : List Queued}

/-! ## Consequences -/

theorem Stores.lastPut (h : p.Stores l) : p.queue.lastPut = l.records.length := by
  cases h with
  | held holds =>
    obtain ⟨ids, intact⟩ := holds.intact
    exact intact.lastPut
  | removed _ _ put => exact put

theorem Stores.lastAck (h : p.Stores l) : p.queue.lastAck = l.acked := by
  cases h with
  | held holds => exact holds.acked
  | removed _ _ _ acked => exact acked

namespace Keeps

/-- A consumer has a queue. -/
theorem holds (h : p.Keeps l shipments flight) (alive : p.control.status.isAlive = true) :
    StoredQueue.Holds ⟨p.disk, p.queue⟩ l := by
  cases h.stores with
  | held holds => exact holds
  | removed atEnd =>
    rw [atEnd] at alive
    cases alive

/-- Every record that was read is in some batch, in flight, or waits. -/
theorem read_eq (h : p.Keeps l shipments flight) :
    (delivered shipments).length + flight.length + p.consumer.stash.toList.length = l.read := by
  have lengths := congrArg List.length h.records
  have := h.read_le
  simp only [List.length_map, List.length_append, List.length_drop] at lengths
  omega

/-- The version of the last of some records in turn. -/
theorem version_getLast? (h : p.Keeps l shipments flight) {front run back : List Queued}
    (split : l.records.map queued = front ++ (run ++ back)) (nonempty : run ≠ []) :
    run.getLast?.map Queued.version = some (front.length + run.length) := by
  have positive : 0 < run.length := List.length_pos_iff.2 nonempty
  have last : (l.records.map queued)[front.length + run.length - 1]? = run.getLast? := by
    rw [split, List.getElem?_append_right (by omega), List.getElem?_append_left (by omega),
      List.getLast?_eq_getElem?]
    congr 1
    omega
  have lengths := congrArg List.length split
  simp only [List.length_map, List.length_append] at lengths
  have inside : front.length + run.length - 1 < l.records.length := by omega
  have version := h.numbered (List.getElem?_eq_getElem inside)
  rw [← last, List.getElem?_map, List.getElem?_eq_getElem inside, Option.map_some, Option.map_some,
    Option.some.injEq]
  show (l.records[front.length + run.length - 1]).version = _
  rw [version]
  omega

/-- The batch in flight ends with the last of its records. -/
theorem version_flight (h : p.Keeps l shipments flight) {batch : Batch}
    (covers : batch.Covers flight) :
    batch.version = (delivered shipments).length + flight.length := by
  have last := h.version_getLast? h.records covers.nonempty
  rw [covers.version, Option.some.injEq] at last
  exact last

/-! ## Frames -/

/-- What does not touch the queue. -/
theorem frame (h : p.Keeps l shipments flight) {p' : Background σ} (disk : p'.disk = p.disk)
    (queue : p'.queue = p.queue) (stash : p'.consumer.stash = p.consumer.stash)
    (consumed : p'.control.consumed = p.control.consumed)
    (atEnd : p.control.status = .stopped → p'.control.status = .stopped) :
    p'.Keeps l shipments flight where
  stores := by
    cases h.stores with
    | held holds =>
      apply Stores.held
      rw [disk, queue]
      exact holds
    | removed stopped closed put acked all =>
      rw [← queue] at closed put acked
      exact .removed (atEnd stopped) closed put acked all
  acked_le := h.acked_le
  read_le := h.read_le
  numbered := h.numbered
  spares := by
    rw [queue]
    exact h.spares
  covers := h.covers
  records := by
    rw [stash]
    exact h.records
  consumed := consumed ▸ h.consumed

/-- What touches nothing but the queue, and puts some records. -/
theorem stored (h : p.Keeps l shipments flight) {p' : Background σ} {l' : ListQueue Operation}
    (stores : p'.Stores l') (folder : p'.queue.folder = p.queue.folder)
    (control : p'.control = p.control) (consumer : p'.consumer = p.consumer) (read : l'.read = l.read)
    (acked : l'.acked = l.acked) {new : List (Record Operation)}
    (records : l'.records = l.records ++ new)
    (numbered : ∀ {i : Nat} {r : Record Operation}, l'.records[i]? = some r → r.version = i + 1)
    (spares : ∀ r ∈ new, r.obj.Spares p.queue.folder) : p'.Keeps l' shipments flight where
  stores := stores
  acked_le := by
    rw [acked, read]
    exact h.acked_le
  read_le := by
    have := h.read_le
    rw [read, records, List.length_append]
    omega
  numbered := numbered
  spares := by
    rw [folder, records]
    intro r mem
    rcases List.mem_append.1 mem with old | new
    · exact h.spares r old
    · exact spares r new
  covers := h.covers
  records := by
    rw [consumer, records, read, List.map_append, h.records, List.drop_append_of_le_length h.read_le,
      List.map_append]
    simp only [List.append_assoc]
  consumed := by
    rw [control, acked]
    exact h.consumed

end Keeps

namespace InOrder

/-- A section that does not touch the queue. -/
theorem frame (h : p.InOrder l shipments flight) {p' : Background σ} (disk : p'.disk = p.disk)
    (queue : p'.queue = p.queue) (stash : p'.consumer.stash = p.consumer.stash)
    (consumed : p'.control.consumed = p.control.consumed)
    (atEnd : p.control.status = .stopped → p'.control.status = .stopped)
    (fresh : p'.consumer.phase = .absent → p.consumer.phase = .absent)
    (phase : p'.consumer.phase.Fits l.acked (delivered shipments).length flight)
    (lives : p'.consumer.phase.Lives p'.control.status) : p'.InOrder l shipments flight where
  keeps := h.keeps.frame disk queue stash consumed atEnd
  phase := phase
  lives := lives
  fresh absent := stash.trans (h.fresh (fresh absent))

/-- A section that touches nothing but the queue, and puts some records. -/
theorem stored (h : p.InOrder l shipments flight) {p' : Background σ} {l' : ListQueue Operation}
    (stores : p'.Stores l') (folder : p'.queue.folder = p.queue.folder)
    (control : p'.control = p.control) (consumer : p'.consumer = p.consumer) (read : l'.read = l.read)
    (acked : l'.acked = l.acked) {new : List (Record Operation)}
    (records : l'.records = l.records ++ new)
    (numbered : ∀ {i : Nat} {r : Record Operation}, l'.records[i]? = some r → r.version = i + 1)
    (spares : ∀ r ∈ new, r.obj.Spares p.queue.folder) : p'.InOrder l' shipments flight where
  keeps := h.keeps.stored stores folder control consumer read acked records numbered spares
  phase := by
    rw [consumer, acked]
    exact h.phase
  lives := by
    rw [consumer, control]
    exact h.lives
  fresh := by
    rw [consumer]
    exact h.fresh

/-- As `stored`, where nothing is put. -/
theorem kept (h : p.InOrder l shipments flight) {p' : Background σ} {l' : ListQueue Operation}
    (stores : p'.Stores l') (folder : p'.queue.folder = p.queue.folder)
    (control : p'.control = p.control) (consumer : p'.consumer = p.consumer) (read : l'.read = l.read)
    (acked : l'.acked = l.acked) (records : l'.records = l.records) :
    p'.InOrder l' shipments flight := by
  have none_new : l'.records = l.records ++ [] := by rw [records, List.append_nil]
  refine h.stored stores folder control consumer read acked none_new ?_ ?_
  · rw [records]
    exact h.keeps.numbered
  · intro r mem
    cases mem

end InOrder

end Background

end Outbox
