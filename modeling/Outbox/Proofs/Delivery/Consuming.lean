import Outbox.Proofs.Delivery.Producers

/-!
# Sections of the consumer

Each section of the consumer moves records on: from the queue into the batch in flight, from there to
the batches that ended, and then the acknowledged version behind them.

* `Background.Proceeds` is what a section may do;
* `Keeps.collects` and `Keeps.ends` are the two ways in which records move;
* `InOrder.collectSection`, `InOrder.answerSection`, `InOrder.ackSection` and
  `InOrder.publishSection` are the sections that do something, and `InOrder.step` is the law of all.
-/

namespace Outbox

theorem delivered_concat (xs : List Shipment) (x : Shipment) :
    delivered (xs ++ [x]) = delivered xs ++ x.run := by
  simp [delivered]

namespace Background

variable {σ : Type} {p p' : Background σ} {l : ListQueue Operation} {shipments : List Shipment}
  {flight : List Queued}

/-- A section ended a batch or none, and nothing went back. -/
def Proceeds (p : Background σ) (l : ListQueue Operation) (shipments : List Shipment)
    (ended : Option Ended) (p' : Background σ) : Prop :=
  ∃ l' more flight', p'.InOrder l' (shipments ++ more) flight' ∧
    more.map Shipment.ended = ended.toList ∧ l'.records = l.records ∧ l.acked ≤ l'.acked ∧
    p.control.consumed ≤ p'.control.consumed

/-- A section ended no batch and acknowledged nothing. -/
theorem InOrder.proceeds {l' : ListQueue Operation} {flight' : List Queued}
    (h : p'.InOrder l' shipments flight') (records : l'.records = l.records)
    (acked : l'.acked = l.acked) (consumed : p'.control.consumed = p.control.consumed) :
    p.Proceeds l shipments none p' := by
  refine ⟨l', [], flight', ?_, rfl, records, Nat.le_of_eq acked.symm, Nat.le_of_eq consumed.symm⟩
  rw [List.append_nil]
  exact h

/-- A section ended one batch and acknowledged nothing. -/
theorem InOrder.proceeds_one {l' : ListQueue Operation} {x : Shipment} {flight' : List Queued}
    (h : p'.InOrder l' (shipments ++ [x]) flight') (records : l'.records = l.records)
    (acked : l'.acked = l.acked) (consumed : p'.control.consumed = p.control.consumed) :
    p.Proceeds l shipments (some x.ended) p' :=
  ⟨l', [x], flight', h, rfl, records, Nat.le_of_eq acked.symm, Nat.le_of_eq consumed.symm⟩

/-! ## How records move -/

/-- The batch in flight ends. -/
theorem Keeps.ends (h : p.Keeps l shipments flight) {batch : Batch} (covers : batch.Covers flight)
    (ending : Ending) : p.Keeps l (shipments ++ [⟨⟨batch, ending⟩, flight⟩]) [] where
  stores := h.stores
  acked_le := h.acked_le
  read_le := h.read_le
  numbered := h.numbered
  spares := h.spares
  covers x mem := by
    rcases List.mem_append.1 mem with old | new
    · exact h.covers x old
    · rw [List.mem_singleton.1 new]
      exact covers
  records := by
    rw [delivered_concat, List.nil_append, List.append_assoc]
    exact h.records
  consumed := h.consumed

/-- Collecting takes the first records that are in no batch. -/
theorem Keeps.collects (h : p.Keeps l shipments []) (alive : p.control.status.isAlive = true)
    (b : Backend σ) :
    ∃ read run, (p.withCollected (p.collectNext b)).Keeps { l with read := read } shipments run ∧
      ((p.collectNext b).result = .ok none ∧ run = [] ∨
        (∃ batch, (p.collectNext b).result = .ok (some batch) ∧ batch.Covers run) ∨
        ∃ e, (p.collectNext b).result = .error (.backend e) ∧ e.isRetryable = true ∧ run = []) := by
  have left : StoredQueue.Left l p.queue.folder ⟨p.disk, p.queue⟩
      ((l.records.drop l.read).map queued) := ⟨l.read, h.holds alive, rfl, rfl⟩
  obtain ⟨rest, ⟨read, holds, folder, rest_eq⟩, collects⟩ :=
    collects_collect (queueSource_yields l p.queue.folder) b p.settings.limits p.consumer.stash left
      p.backend
  have same : collect queueSource b p.settings.limits p.consumer.stash ⟨p.disk, p.queue⟩ p.backend =
      p.collectNext b := rfl
  rw [same] at holds folder collects
  have records := h.records
  rw [List.nil_append] at records
  have keeps (run : List Queued) (split : p.consumer.stash.toList ++ (l.records.drop l.read).map queued =
      run ++ ((p.collectNext b).stash.toList ++ rest)) :
      (p.withCollected (p.collectNext b)).Keeps { l with read := read } shipments run := by
    obtain ⟨ids, intact⟩ := holds.intact
    refine ⟨.held holds, holds.ordered, ?_, h.numbered, ?_, h.covers, ?_, h.consumed⟩
    · have := intact.lastRead
      rw [holds.read] at this
      exact this
    · show ∀ r ∈ l.records, r.obj.Spares (p.collectNext b).source.queue.folder
      rw [folder]
      exact h.spares
    · rw [split, rest_eq] at records
      exact records
  generalize (p.collectNext b).result = result at collects ⊢
  generalize before_eq : p.consumer.stash.toList ++ (l.records.drop l.read).map queued = before
    at collects keeps
  generalize after_eq : (p.collectNext b).stash.toList ++ rest = remaining at collects keeps
  cases collects with
  | batch split covers => exact ⟨read, _, keeps _ split, .inr (.inl ⟨_, rfl, covers⟩)⟩
  | drained none_before => exact ⟨read, [], keeps [] none_before, .inl ⟨rfl, rfl⟩⟩
  | unreached retryable => exact ⟨read, [], keeps [] rfl, .inr (.inr ⟨_, rfl, retryable, rfl⟩)⟩

/-- The consumer goes over to a phase that fits. -/
theorem Keeps.goTo (h : p.Keeps l shipments flight) {ph : Phase}
    (phase : ph.Fits l.acked (delivered shipments).length flight)
    (lives : ph.Lives p.control.status) (present : ph ≠ .absent) :
    (p.goTo ph).InOrder l shipments flight :=
  ⟨h.frame rfl rfl rfl rfl id, phase, lives, fun absent => absurd absent present⟩

/-- Another attempt is made later, or none. -/
theorem Keeps.retry (h : p.Keeps l shipments flight) (alive : p.control.status.isAlive = true)
    (acked : l.acked = (delivered shipments).length) {next : Nat → Attempt}
    (phase : ∀ deadline retries, (Phase.backingOff deadline (next retries)).Fits l.acked
      (delivered shipments).length flight) (now retries : Nat) :
    (p.retry now retries next).InOrder l shipments flight ∧
      (p.retry now retries next).control.consumed = p.control.consumed := by
  unfold Background.retry
  split
  · exact ⟨h.goTo acked alive Phase.noConfusion, rfl⟩
  · have waits : (p.withControl fun c => { c with lastBackoff := some now }).Keeps l shipments flight :=
      h.frame rfl rfl rfl rfl id
    exact ⟨waits.goTo (phase _ _) alive Phase.noConfusion, rfl⟩

namespace InOrder

/-! ## Sections -/

/-- A batch is collected. It is in flight then, or ends at once if there is nothing to send. -/
theorem collectSection (h : p.InOrder l shipments flight) (b : Backend σ) {retries : Nat}
    (hp : p.consumer.phase = .collecting retries) (now : Nat) :
    p.Proceeds l shipments (endedCollecting? (p.collectNext b).result)
      (p.collectSection b now retries) := by
  have lives := h.lives
  have fits := h.phase
  rw [hp] at lives fits
  obtain ⟨rfl, acked⟩ := fits
  have alive : (p.withCollected (p.collectNext b)).control.status.isAlive = true := lives
  obtain ⟨read, run, keeps, answer⟩ := h.keeps.collects lives b
  unfold Background.collectSection
  simp only
  rcases answer with ⟨result, rfl⟩ | ⟨batch, result, covers⟩ | ⟨e, result, retryable, rfl⟩
  · rw [result]
    have fits : Phase.resting.Fits l.acked (delivered shipments).length [] := ⟨rfl, acked⟩
    exact (keeps.goTo fits alive Phase.noConfusion).proceeds rfl rfl rfl
  · rw [result]
    simp only [endedCollecting?, takeUp]
    by_cases nothing : batch.bundle.length = 0
    · rw [if_pos nothing, if_pos nothing]
      have version := keeps.version_flight covers
      have fits : (Phase.acknowledging batch).Fits l.acked
          (delivered (shipments ++ [⟨⟨batch, .nothingToSend⟩, run⟩])).length [] := by
        rw [delivered_concat, List.length_append]
        exact ⟨rfl, version, by omega⟩
      exact ((keeps.ends covers .nothingToSend).goTo fits alive Phase.noConfusion).proceeds_one
        rfl rfl rfl
    · rw [if_neg nothing, if_neg nothing]
      have fits : (Phase.sending batch 0).Fits l.acked (delivered shipments).length run :=
        ⟨covers, acked⟩
      exact (keeps.goTo fits alive Phase.noConfusion).proceeds rfl rfl rfl
  · rw [result]
    simp only [endedCollecting?, takeUp, if_pos retryable]
    have later (deadline retries : Nat) : (Phase.backingOff deadline (.collect retries)).Fits l.acked
        (delivered shipments).length [] := ⟨rfl, acked⟩
    obtain ⟨again, consumed⟩ := keeps.retry alive acked later now retries
    exact again.proceeds rfl rfl consumed

/-- The batch in flight ends with the answer to it, unless it is to be sent again. -/
theorem answerSection (h : p.InOrder l shipments flight) (b : Backend σ) {batch : Batch}
    {retries deadline : Nat} (hp : p.consumer.phase = .awaiting batch retries deadline) (now : Nat) :
    p.Proceeds l shipments (p.endedAnswering? b batch) (p.answerSection b now batch retries) := by
  have lives := h.lives
  have fits := h.phase
  rw [hp] at lives fits
  obtain ⟨covers, acked⟩ := fits
  have alive : p.control.status.isAlive = true := lives
  have version := h.keeps.version_flight covers
  have acknowledging (ending : Ending) : (Phase.acknowledging batch).Fits l.acked
      (delivered (shipments ++ [⟨⟨batch, ending⟩, flight⟩])).length [] := by
    rw [delivered_concat, List.length_append]
    exact ⟨rfl, version, by omega⟩
  unfold Background.answerSection endedAnswering?
  rcases b.answer p.backend p.container batch.bundle with ⟨s, result⟩
  have informed : Keeps { p with backend := s } l shipments flight :=
    h.keeps.frame rfl rfl rfl rfl id
  cases result with
  | ok receipt =>
    -- the files of the batch are removed, but none of the queue
    have spares : p.disk.Spares (p.disk.removeUploaded batch.bundle) p.queue.folder := by
      apply p.disk.spares_removeUploaded
      intro op uploaded
      obtain ⟨r, inFlight, rfl⟩ := covers.uploads op uploaded
      have put : r ∈ l.records.map queued := by
        rw [h.keeps.records]
        exact List.mem_append_right _ (List.mem_append_left _ inFlight)
      obtain ⟨record, member, rfl⟩ := List.mem_map.1 put
      exact h.keeps.spares record member
    have removed : Keeps { p with
        backend := s
        disk := p.disk.removeUploaded batch.bundle } l shipments flight :=
      { informed with stores := .held ((h.keeps.holds alive).spares spares) }
    exact ((removed.ends covers (.accepted receipt)).goTo (acknowledging _) alive
      Phase.noConfusion).proceeds_one rfl rfl rfl
  | error e =>
    simp only
    by_cases retryable : e.isRetryable = true
    · rw [if_pos retryable, if_pos retryable]
      have later (deadline retries : Nat) : (Phase.backingOff deadline (.send batch retries)).Fits
          l.acked (delivered shipments).length flight := ⟨covers, acked⟩
      obtain ⟨again, consumed⟩ := informed.retry alive acked later now retries
      exact again.proceeds rfl rfl consumed
    · rw [if_neg retryable, if_neg retryable]
      exact ((informed.ends covers (.refused e)).goTo (acknowledging _) alive
        Phase.noConfusion).proceeds_one rfl rfl rfl

/-- The queue is acknowledged up to the batches that ended. -/
theorem ackSection (h : p.InOrder l shipments flight) {batch : Batch}
    (hp : p.consumer.phase = .acknowledging batch) :
    p.Proceeds l shipments none (p.ackSection batch) := by
  have lives := h.lives
  have fits := h.phase
  rw [hp] at lives fits
  obtain ⟨rfl, version, acked⟩ := fits
  have alive : p.control.status.isAlive = true := lives
  have known : batch.version ≤ l.read := by
    have := h.keeps.read_eq
    omega
  obtain ⟨d', q', done, holds, folder⟩ := (h.keeps.holds alive).ack known
  have top : max batch.version l.acked = (delivered shipments).length := by omega
  have noted : Keeps { p with disk := d', queue := q' } { l with acked := max batch.version l.acked }
      shipments [] := by
    refine ⟨.held holds, holds.ordered, h.keeps.read_le, h.keeps.numbered, ?_, h.keeps.covers,
      h.keeps.records, Nat.le_trans h.keeps.consumed (Nat.le_max_right _ _)⟩
    rw [folder]
    exact h.keeps.spares
  have publishing : (Phase.publishing batch.version).Fits (max batch.version l.acked)
      (delivered shipments).length [] := ⟨rfl, version, top⟩
  unfold Background.ackSection
  rw [done]
  refine ⟨{ l with acked := max batch.version l.acked }, [], [], ?_, rfl, rfl,
    Nat.le_max_right _ _, Nat.le_refl _⟩
  rw [List.append_nil]
  exact noted.goTo publishing alive Phase.noConfusion

/-- What was acknowledged is told. -/
theorem publishSection (h : p.InOrder l shipments flight) {version : Nat}
    (hp : p.consumer.phase = .publishing version) (now : Nat) :
    p.Proceeds l shipments none (p.publishSection now version) := by
  have lives := h.lives
  have fits := h.phase
  rw [hp] at lives fits
  obtain ⟨rfl, rfl, acked⟩ := fits
  have told := h.keeps.consumed
  refine ⟨l, [], [], ?_, rfl, rfl, Nat.le_refl _, ?_⟩
  · rw [List.append_nil]
    refine ⟨⟨?_, h.keeps.acked_le, h.keeps.read_le, h.keeps.numbered, h.keeps.spares,
      h.keeps.covers, h.keeps.records, Nat.le_of_eq acked.symm⟩, ⟨rfl, acked⟩, lives, ?_⟩
    · exact .held (h.keeps.holds lives)
    · exact Phase.noConfusion
  · show p.control.consumed ≤ (delivered shipments).length
    omega

/-- A section that only goes over to another phase, and may change control words. -/
theorem moves (h : p.InOrder l shipments flight) {f : Control → Control} {ph : Phase}
    (consumed : (f p.control).consumed = p.control.consumed)
    (atEnd : p.control.status = .stopped → (f p.control).status = .stopped)
    (phase : ph.Fits l.acked (delivered shipments).length flight)
    (lives : ph.Lives (f p.control).status) (present : ph ≠ .absent) :
    p.Proceeds l shipments none ((p.withControl f).goTo ph) := by
  have keeps : (p.withControl f).Keeps l shipments flight := h.keeps.frame rfl rfl rfl consumed atEnd
  exact (keeps.goTo phase lives present).proceeds rfl rfl consumed

theorem goTo (h : p.InOrder l shipments flight) {ph : Phase}
    (phase : ph.Fits l.acked (delivered shipments).length flight)
    (lives : ph.Lives p.control.status) (present : ph ≠ .absent) :
    p.Proceeds l shipments none (p.goTo ph) :=
  (h.keeps.goTo phase lives present).proceeds rfl rfl rfl

/-- A round begins. The queue may be handed to the disk. -/
theorem flushIfDue (h : p.InOrder l shipments []) (now : Nat)
    (alive : p.control.status.isAlive = true) (acked : l.acked = (delivered shipments).length) :
    p.Proceeds l shipments none ((p.flushIfDue now).goTo (.checking 0)) := by
  unfold Background.flushIfDue
  split
  · obtain ⟨stores, folder⟩ := h.keeps.stores.flush
    have flushed := (h.kept stores folder rfl rfl rfl rfl rfl).keeps
    have noted : Keeps { p.flush with consumer := { p.consumer with lastFlush := now } } l
        shipments [] := flushed.frame rfl rfl rfl rfl id
    have fits : (Phase.checking 0).Fits l.acked (delivered shipments).length [] := ⟨rfl, acked⟩
    exact (noted.goTo fits alive Phase.noConfusion).proceeds rfl rfl rfl
  · exact h.goTo ⟨rfl, acked⟩ alive Phase.noConfusion

theorem wakeSection (h : p.InOrder l shipments []) (alive : p.control.status.isAlive = true)
    (acked : l.acked = (delivered shipments).length) :
    p.Proceeds l shipments none p.wakeSection := by
  show p.Proceeds l shipments none (if _ then _ else _)
  split
  · exact h.moves rfl id acked alive Phase.noConfusion
  · exact h.moves rfl id ⟨rfl, acked⟩ alive Phase.noConfusion

/-- **Every section of the consumer keeps the order.** -/
theorem step (h : p.InOrder l shipments flight) (b : Backend σ) (now : Nat) :
    p.Proceeds l shipments (p.endedStep? b now) (p.step b now) := by
  unfold Background.step endedStep?
  cases p.readiness now with
  | waits _ => exact h.proceeds rfl rfl rfl
  | gone => exact h.proceeds rfl rfl rfl
  | ready =>
    have lives := h.lives
    have fits := h.phase
    cases hp : p.consumer.phase with
    | absent => exact h.proceeds rfl rfl rfl
    | ended => exact h.proceeds rfl rfl rfl
    | collecting retries => exact h.collectSection b hp now
    | awaiting batch retries deadline => exact h.answerSection b hp now
    | acknowledging batch => exact h.ackSection hp
    | publishing version => exact h.publishSection hp now
    | starting =>
      rw [hp] at lives fits
      obtain ⟨rfl, acked⟩ := fits
      exact h.flushIfDue now lives acked
    | checking retries =>
      rw [hp] at lives fits
      obtain ⟨rfl, acked⟩ := fits
      show p.Proceeds l shipments none (p.check retries)
      unfold Background.check
      split
      · exact h.goTo acked lives Phase.noConfusion
      · split
        · exact h.goTo ⟨rfl, acked⟩ lives Phase.noConfusion
        · exact h.goTo ⟨rfl, acked⟩ lives Phase.noConfusion
    | sending batch retries =>
      rw [hp] at lives fits
      show p.Proceeds l shipments none (p.sendSection b now batch retries)
      unfold Background.sendSection
      have begun : Keeps { p with backend := (b.begin p.backend).1 } l shipments flight :=
        h.keeps.frame rfl rfl rfl rfl id
      have waits (deadline : Nat) : (Phase.awaiting batch retries deadline).Fits l.acked
          (delivered shipments).length flight := fits
      exact (begun.goTo (waits _) lives Phase.noConfusion).proceeds rfl rfl rfl
    | backingOff deadline next =>
      rw [hp] at lives fits
      show p.Proceeds l shipments none
        (if p.control.interrupted then p.goTo .ending else p.goToAttempt next)
      cases next with
      | collect retries =>
        obtain ⟨rfl, acked⟩ := fits
        split
        · exact h.goTo acked lives Phase.noConfusion
        · exact h.goTo ⟨rfl, acked⟩ lives Phase.noConfusion
      | send batch retries =>
        split
        · exact h.goTo fits.2 lives Phase.noConfusion
        · exact h.goTo fits lives Phase.noConfusion
    | resting =>
      rw [hp] at lives fits
      obtain ⟨rfl, acked⟩ := fits
      show p.Proceeds l shipments none (p.restSection now)
      unfold Background.restSection
      split
      · exact h.goTo acked lives Phase.noConfusion
      · split
        · exact h.wakeSection lives acked
        · exact h.goTo ⟨rfl, acked⟩ lives Phase.noConfusion
    | sleeping deadline notified =>
      rw [hp] at lives fits
      obtain ⟨rfl, acked⟩ := fits
      exact h.wakeSection lives acked
    | ending =>
      rw [hp] at fits
      exact h.moves rfl (fun _ => rfl) fits rfl Phase.noConfusion

end InOrder

end Background

end Outbox
